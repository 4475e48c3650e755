/-!
What can go wrong, and how it is told. Errors name causes; their wording is in one place. Errors of
a single record only cost that record, errors of a list of records end a run. Failures
of the transport itself and of writing JSON are left out, as no part of a harvest tells them from
the kinds that are here.
-/
namespace Harvest

/-- Why a request for records gave none. -/
inductive Shortfall where
  | noRecords
  | protocolError (code message : String)
  | unavailable (message : String)
deriving DecidableEq, Repr

def Shortfall.message : Shortfall → String
  | noRecords => "no records returned"
  | protocolError code message => "repository error '" ++ code ++ "': " ++ message
  | unavailable message => message

/-- What the file system refuses, with its number and text. -/
inductive IoError where
  | numbered (text : String) (code : Nat)
  | plain (text : String)
deriving DecidableEq, Repr

namespace IoError

def notFound : IoError := numbered "No such file or directory" 2
def busy : IoError := numbered "Device or resource busy" 16
def fileExists : IoError := numbered "File exists" 17
def notADirectory : IoError := numbered "Not a directory" 20
def isADirectory : IoError := numbered "Is a directory" 21
def nameTooLong : IoError := numbered "File name too long" 36
def zeroInName : IoError := plain "file name contained an unexpected NUL byte"

def message : IoError → String
  | numbered text code => text ++ " (os error " ++ toString code ++ ")"
  | plain text => text

end IoError

inductive Error where
  /-- The settings do not fit the repository; the prefixes that would are given. -/
  | settings (message : String) (supported : List String)
  | invalidDate (text : String)
  /-- No more records can be had from an address. -/
  | extraction (url : String) (lastDatestamp : Option String) (reason : Shortfall)
  | retriesExhausted (attempts : Nat) (message : String)
  | malformedXml
  | missingElement (element context : String)
  | unknownSchema (identifier : String) (location : Option String)
  | io (e : IoError)
  | malformedYaml
deriving DecidableEq, Repr

def listPrefixes (prefixes : List String) : String :=
  if prefixes.isEmpty then "none" else ", ".intercalate prefixes

/-- A remark in brackets, if there is something to remark. -/
def remarkIf (label : String) : Option String → String
  | none => ""
  | some s => " (" ++ label ++ ": " ++ s ++ ")"

def Error.message : Error → String
  | settings message supported =>
    message ++ ". Supported metadata prefixes: " ++ listPrefixes supported
  | invalidDate text =>
    "Invalid date: '" ++ text ++ "'. Expected YYYY-MM-DD or YYYY-MM-DDThh:mm:ssZ"
  | extraction url last reason =>
    "Could not harvest records from " ++ url ++ ": " ++ reason.message ++
      remarkIf "last harvested record datestamp" last
  | retriesExhausted attempts message =>
    "Request failed after " ++ toString attempts ++ " attempts: " ++ message
  | malformedXml => "XML parsing failed"
  | missingElement element context =>
    "Missing required XML element: " ++ element ++ " in " ++ context
  | unknownSchema identifier location =>
    "Unknown metadata schema for record " ++ identifier ++ remarkIf "schema location" location
  | io e => "IO error: " ++ e.message
  | malformedYaml => "YAML serialization failed"

end Harvest
