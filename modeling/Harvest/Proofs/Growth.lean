import Harvest.Proofs.Blanks
import Harvest.Proofs.Envelope

/-!
Documents read in part that look the same. Two of them go on looking the same when the same tokens
follow. The text that an element begins with may still grow, so the open elements are looked at with
the texts added to them that come next.
-/
namespace Harvest.Growth

open Xml Blanks Envelope

/-! Open elements -/

/-- The names of open elements. -/
def names (opened : List Frame) : List String := opened.map fun f => f.name.base

/-- Whether a text that comes next is part of the text the element begins with. -/
def begins (f : Frame) : Bool :=
  match f.content with
  | [] | [.text _] => true
  | _ => false

section

variable (read : List String → Bool) (above : List String) {f f' : Frame}

/-- An open element with what is seen of its content. -/
def seen (f : Frame) : Frame :=
  { f with
    content :=
      (if read (f.name.base :: above) then
          [.text (String.ofList (Text.trimChars (begun f.content.reverse)))]
        else []) ++
      viewOf read (f.name.base :: above) f.content.reverse }

theorem viewOf_append (path : List String) (content more : List Node) :
    viewOf read path (content ++ more) = viewOf read path content ++ viewOf read path more := by
  induction content with
  | nil => rfl
  | cons n rest ih => cases n <;> simp only [List.cons_append, viewOf, ih]

theorem view_toElement : view read above f.toElement =
    .mk f.name.base f.space f.attributes (seen read above f).content := rfl

theorem view_of_seen (h : seen read above f = seen read above f') :
    view read above f.toElement = view read above f'.toElement := by
  obtain ⟨hname, hspace, hattributes, -, hcontent⟩ := Frame.mk.inj h
  rw [view_toElement, view_toElement, hname, hspace, hattributes, h]

/-- Texts that are added come behind all elements inside. -/
theorem viewOf_addText (path : List String) (s : List Char) :
    viewOf read path (f.addText s).content.reverse = viewOf read path f.content.reverse := by
  unfold Frame.addText
  split
  · rename_i t earlier hcontent
    simp [hcontent, viewOf_append, viewOf]
  · simp [viewOf_append, viewOf]

theorem addText_addText (f : Frame) (s t : List Char) :
    (f.addText s).addText t = f.addText (s ++ t) := by
  obtain ⟨name, space, attributes, scope, content⟩ := f
  cases content with
  | nil => simp [Frame.addText]
  | cons n earlier => cases n <;> simp [Frame.addText, String.append_assoc]

theorem begins_addText (f : Frame) (s : List Char) : begins (f.addText s) = begins f := by
  obtain ⟨name, space, attributes, scope, content⟩ := f
  rcases content with - | ⟨n, - | ⟨m, earlier⟩⟩
  · rfl
  · cases n <;> rfl
  · cases n <;> rfl

theorem begun_append {content : List Node} (h : content ≠ []) (more : List Node) :
    begun (content ++ more) = begun content := by
  cases content with
  | nil => exact absurd rfl h
  | cons n rest => cases n <;> rfl

theorem begun_addText (f : Frame) (s : List Char) : begun (f.addText s).content.reverse =
    if begins f then begun f.content.reverse ++ s else begun f.content.reverse := by
  obtain ⟨name, space, attributes, scope, content⟩ := f
  rcases content with - | ⟨n, - | ⟨m, earlier⟩⟩
  · simp [Frame.addText, begins, begun]
  · cases n <;> simp [Frame.addText, begins, begun]
  · have hone (n : Node) : begun (n :: m :: earlier).reverse = begun (m :: earlier).reverse := by
      rw [List.reverse_cons, begun_append (by simp)]
    have htwo (n n' : Node) :
        begun (n' :: n :: m :: earlier).reverse = begun (m :: earlier).reverse := by
      rw [List.reverse_cons, begun_append (by simp), hone]
    cases n with
    | text t => exact (hone _).trans (hone _).symm
    | element e => exact (htwo _ _).trans (hone _).symm
    | remark => exact (htwo _ _).trans (hone _).symm

theorem addText_eq (f : Frame) (s : List Char) :
    f.addText s = { f with content := (f.addText s).content } := by
  unfold Frame.addText
  split <;> rfl

theorem seen_congr {content content' : List Node}
    (hbegun : read (f.name.base :: above) = true →
      Text.trimChars (begun content.reverse) = Text.trimChars (begun content'.reverse))
    (hview : viewOf read (f.name.base :: above) content.reverse =
      viewOf read (f.name.base :: above) content'.reverse) :
    seen read above { f with content } = seen read above { f with content := content' } := by
  simp only [seen, hview]
  by_cases hread : read (f.name.base :: above) = true
  · rw [if_pos hread, if_pos hread, hbegun hread]
  · rw [if_neg hread, if_neg hread]

/-- An element looks the same with one text added as with another, if the two are the same beside
blanks at the end or make no difference there. -/
theorem seen_addText_congr {s t : List Char}
    (h : read (f.name.base :: above) = true → begins f = true → Text.trimEnd s = Text.trimEnd t) :
    seen read above (f.addText s) = seen read above (f.addText t) := by
  rw [addText_eq f s, addText_eq f t]
  refine seen_congr read above (fun hread => ?_) (by rw [viewOf_addText, viewOf_addText])
  rw [begun_addText, begun_addText]
  split
  · rename_i hbegins
    rw [trimChars_eq, trimChars_eq, trimEnd_append_congr _ (h hread hbegins)]
  · rfl

theorem seen_addText_nil : seen read above (f.addText []) = seen read above f := by
  have hsame : seen read above { f with content := (f.addText []).content } =
      seen read above { f with content := f.content } := by
    refine seen_congr read above (fun _ => ?_) (viewOf_addText read _ [])
    rw [begun_addText, List.append_nil, ite_self]
  rw [addText_eq f []]
  exact hsame

theorem seen_addText {s : List Char}
    (h : read (f.name.base :: above) = true → begins f = true → s.all Text.isBlank = true) :
    seen read above (f.addText s) = seen read above f := by
  have hnone : seen read above (f.addText s) = seen read above (f.addText []) :=
    seen_addText_congr read above fun hread hbegins => trimEnd_of_blank (h hread hbegins)
  rw [hnone, seen_addText_nil]

/-- Where the text that an element begins with is read, it shows what is added to it. -/
theorem solid_of_seen {s t : List Char} (hread : read (f.name.base :: above) = true)
    (hbegins : begins f = true)
    (h : seen read above (f.addText s) = seen read above (f.addText t)) : solid s = solid t := by
  have hcontent := (Frame.mk.inj h).2.2.2.2
  have hname (u : List Char) : (f.addText u).name = f.name := by rw [addText_eq]
  simp only [hname, hread, if_true, List.singleton_append, List.cons.injEq, Node.text.injEq,
    String.ofList_inj, begun_addText, hbegins] at hcontent
  have hsolid := congrArg solid hcontent.1
  rw [solid_trimChars, solid_trimChars, solid_append, solid_append] at hsolid
  exact List.append_cancel_left hsolid

/-- Whether a node parts the texts around it. -/
def parts : Node → Bool
  | .text _ => false
  | _ => true

/-- A node that is no text is seen behind what is there. -/
theorem seen_addNode {n : Node} (hn : parts n = true) :
    seen read above (f.addNode n) =
      { seen read above f with
        content := (seen read above f).content ++ viewOf read (f.name.base :: above) [n] } := by
  have hbegun : begun (f.content.reverse ++ [n]) = begun f.content.reverse := by
    by_cases hcontent : f.content.reverse = []
    · rw [hcontent]
      cases n with
      | text s => cases hn
      | element | remark => rfl
    · exact begun_append hcontent [n]
  simp only [seen, Frame.addNode, List.reverse_cons, hbegun, viewOf_append, List.append_assoc]

/-- A node that is no text ends the text in front, so that no text to come is seen. -/
theorem seen_addNode_addText {n : Node} (hn : parts n = true) (s : List Char) :
    seen read above ((f.addNode n).addText s) = seen read above (f.addNode n) := by
  refine seen_addText read above fun _ hbegins => ?_
  cases n with
  | text s => cases hn
  | element | remark => cases hbegins

end

/-! Steps -/

/-- All that a token can do to a document read in part. -/
inductive Goes : Growing → Token → Growing → Prop
  | blank {root : Option Element} {raw : List Char} (hspace : raw.all isSpace = true) :
      Goes ⟨[], root⟩ (.text raw) ⟨[], root⟩
  | text {f : Frame} {outer : List Frame} {root : Option Element} {raw s : List Char}
      (hs : textOfRaw raw = some s) :
      Goes ⟨f :: outer, root⟩ (.text raw) ⟨f.addText s :: outer, root⟩
  | literal {f : Frame} {outer : List Frame} {root : Option Element} {raw : List Char} :
      Goes ⟨f :: outer, root⟩ (.literal raw) ⟨f.addText (textOfLiteral raw) :: outer, root⟩
  | outside {root : Option Element} : Goes ⟨[], root⟩ .remark ⟨[], root⟩
  | remark {f : Frame} {outer : List Frame} {root : Option Element} :
      Goes ⟨f :: outer, root⟩ .remark ⟨f.addNode .remark :: outer, root⟩
  | closing {f : Frame} {outer : List Frame} {root : Option Element} {name : QName} {k : Growing}
      (hname : f.name = name) (hk : Growing.finishElement outer root f.toElement = some k) :
      Goes ⟨f :: outer, root⟩ (.closing name) k
  | opening {opened : List Frame} {root : Option Element} {name : QName}
      {given : List (QName × List Char)} {f : Frame}
      (hroom : (opened.isEmpty && root.isSome) = false)
      (hf : Frame.ofTag? ((opened.head?.map Frame.scope).getD []) name given = some f) :
      Goes ⟨opened, root⟩ (.opening name given false) ⟨f :: opened, root⟩
  | closed {opened : List Frame} {root : Option Element} {name : QName}
      {given : List (QName × List Char)} {f : Frame} {k : Growing}
      (hroom : (opened.isEmpty && root.isSome) = false)
      (hf : Frame.ofTag? ((opened.head?.map Frame.scope).getD []) name given = some f)
      (hk : Growing.finishElement opened root f.toElement = some k) :
      Goes ⟨opened, root⟩ (.opening name given true) k

theorem step_eq_some {g k : Growing} {t : Token} : g.step t = some k ↔ Goes g t k := by
  constructor
  · intro h
    obtain ⟨opened, root⟩ := g
    cases t with
    | text raw =>
      cases opened with
      | nil =>
        simp only [Growing.step] at h
        split at h
        · rename_i hspace
          obtain rfl := Option.some.inj h
          exact .blank hspace
        · cases h
      | cons f outer =>
        obtain ⟨s, hs, h⟩ := Option.bind_eq_some_iff.mp h
        obtain rfl := Option.some.inj h
        exact .text hs
    | literal raw =>
      cases opened with
      | nil => cases h
      | cons f outer =>
        obtain rfl := Option.some.inj h
        exact .literal
    | remark =>
      cases opened with
      | nil =>
        obtain rfl := Option.some.inj h
        exact .outside
      | cons f outer =>
        obtain rfl := Option.some.inj h
        exact .remark
    | closing name =>
      cases opened with
      | nil => cases h
      | cons f outer =>
        simp only [Growing.step] at h
        split at h
        · rename_i hname
          exact .closing (by simpa using hname) h
        · cases h
    | opening name given closed =>
      simp only [Growing.step] at h
      split at h
      · cases h
      · rename_i hroom
        obtain ⟨f, hf, h⟩ := Option.bind_eq_some_iff.mp h
        cases closed with
        | true => exact .closed (by simpa using hroom) hf h
        | false =>
          obtain rfl := Option.some.inj h
          exact .opening (by simpa using hroom) hf
  · intro h
    cases h with
    | blank hspace => exact if_pos hspace
    | text hs => simp only [Growing.step, hs, Option.bind_eq_bind, Option.bind_some]
    | literal | outside | remark => rfl
    | closing hname hk => simp only [Growing.step, hname, beq_self_eq_true, if_true, hk]
    | opening hroom hf =>
      simp only [Growing.step, hroom, hf, Bool.false_eq_true, if_false, Option.bind_eq_bind,
        Option.bind_some]
    | closed hroom hf hk =>
      simp only [Growing.step, hroom, hf, Bool.false_eq_true, if_false, if_true,
        Option.bind_eq_bind, Option.bind_some, hk]

/-! Documents read in part -/

section

variable {read : List String → Bool} {rest : List Token} {outer outer' : List Frame}
  {g g' k : Growing}

/-- What is seen of open elements, innermost first. -/
def look (read : List String → Bool) : List Frame → List Frame
  | [] => []
  | f :: outer => seen read (names outer) f :: look read outer

/-- The text that some tokens begin with. It belongs to what is in front of them. -/
def coming : List Token → List Char
  | .text raw :: rest => (textOfRaw raw).getD [] ++ coming rest
  | .literal raw :: rest => textOfLiteral raw ++ coming rest
  | _ => []

/-- Open elements that look the same once the text that comes next is read. -/
inductive Alike (read : List String → Bool) (rest : List Token) : List Frame → List Frame → Prop
  | nil : Alike read rest [] []
  | cons {f f' : Frame} {outer outer' : List Frame}
      (hseen : seen read (names outer) (f.addText (coming rest)) =
        seen read (names outer) (f'.addText (coming rest)))
      (houter : look read outer = look read outer') : Alike read rest (f :: outer) (f' :: outer')

structure Same (read : List String → Bool) (rest : List Token) (g g' : Growing) : Prop where
  opened : Alike read rest g.opened g'.opened
  root : g.root.map (view read []) = g'.root.map (view read [])

theorem names_of_look (h : look read outer = look read outer') : names outer = names outer' := by
  have hlook (opened : List Frame) : names (look read opened) = names opened := by
    induction opened with
    | nil => rfl
    | cons f outer ih => exact congrArg (f.name.base :: ·) ih
  rw [← hlook outer, h, hlook outer']

/-- In front of anything but a text, all open elements look the same as they are. -/
theorem Alike.look_eq {opened opened' : List Frame} (h : Alike read rest opened opened')
    (hrest : coming rest = []) : look read opened = look read opened' := by
  cases h with
  | nil => rfl
  | @cons f f' outer outer' hseen houter =>
    have hnone (f : Frame) : seen read (names outer) (f.addText (coming rest)) =
        seen read (names outer) f :=
      seen_addText read _ fun _ _ => by rw [hrest]; rfl
    rw [hnone, hnone] at hseen
    rw [look, look, hseen, houter, names_of_look houter]

theorem look_eq_nil (h : look read [] = look read outer) : outer = [] := by
  cases outer with
  | nil => rfl
  | cons f outer => cases h

theorem exists_of_look {f : Frame} (h : look read (f :: outer) = look read outer') :
    ∃ f' more, outer' = f' :: more ∧ seen read (names outer) f = seen read (names outer) f' ∧
      look read outer = look read more := by
  cases outer' with
  | nil => cases h
  | cons f' more =>
    obtain ⟨hseen, hmore⟩ := List.cons.inj h
    rw [← names_of_look hmore] at hseen
    exact ⟨f', more, rfl, hseen, hmore⟩

theorem scope_of_look (h : look read outer = look read outer') :
    outer.head?.map Frame.scope = outer'.head?.map Frame.scope := by
  have hlook (opened : List Frame) :
      (look read opened).head?.map Frame.scope = opened.head?.map Frame.scope := by
    cases opened <;> rfl
  rw [← hlook outer, h, hlook outer']

theorem isEmpty_of_look (h : look read outer = look read outer') :
    outer.isEmpty = outer'.isEmpty := by
  have hlook (opened : List Frame) : (look read opened).isEmpty = opened.isEmpty := by
    cases opened <;> rfl
  rw [← hlook outer, h, hlook outer']

theorem isSome_of_view {root root' : Option Element}
    (h : root.map (view read []) = root'.map (view read [])) : root.isSome = root'.isSome := by
  have hsome := congrArg Option.isSome h
  rwa [Option.isSome_map, Option.isSome_map] at hsome

theorem Alike.addNode {f f' : Frame} {n n' : Node} (hn : parts n = true) (hn' : parts n' = true)
    (hseen : seen read (names outer) f = seen read (names outer) f')
    (hnode : viewOf read (names (f :: outer)) [n] = viewOf read (names (f :: outer)) [n'])
    (houter : look read outer = look read outer') (rest : List Token) :
    Alike read rest (f.addNode n :: outer) (f'.addNode n' :: outer') := by
  have hname : f.name = f'.name := (Frame.mk.inj hseen).1
  have hnode : viewOf read (f.name.base :: names outer) [n] =
      viewOf read (f'.name.base :: names outer) [n'] := by
    rw [← hname]
    exact hnode
  refine .cons ?_ houter
  rw [seen_addNode_addText _ _ hn, seen_addNode_addText _ _ hn', seen_addNode _ _ hn,
    seen_addNode _ _ hn', hseen, hnode]

theorem same_finishElement {root root' : Option Element} {e e' : Element}
    (houter : look read outer = look read outer')
    (hroot : root.map (view read []) = root'.map (view read []))
    (he : view read (names outer) e = view read (names outer) e')
    (h : Growing.finishElement outer root e = some k) (rest : List Token) :
    ∃ k', Growing.finishElement outer' root' e' = some k' ∧ Same read rest k k' := by
  cases outer with
  | nil =>
    obtain rfl := look_eq_nil houter
    unfold Growing.finishElement at h ⊢
    dsimp only at h ⊢
    rw [← isSome_of_view hroot]
    split at h
    · cases h
    · rename_i hnone
      obtain rfl := Option.some.inj h
      exact ⟨_, if_neg hnone, .nil, congrArg some he⟩
  | cons f outer =>
    obtain ⟨f', more, rfl, hseen, hmore⟩ := exists_of_look houter
    obtain rfl := Option.some.inj h
    have hnode : viewOf read (names (f :: outer)) [.element e] =
        viewOf read (names (f :: outer)) [.element e'] := by
      simp only [viewOf, he]
    exact ⟨_, rfl, .addNode rfl rfl hseen hnode hmore rest, hroot⟩

/-- One token keeps two documents looking the same. -/
theorem Same.step {t : Token} (h : Same read (t :: rest) g g') (hstep : Goes g t k) :
    ∃ k', Goes g' t k' ∧ Same read rest k k' := by
  obtain ⟨opened', root'⟩ := g'
  obtain ⟨hopened, hroot⟩ := h
  cases hstep with
  | blank hspace =>
    cases hopened
    exact ⟨_, .blank hspace, .nil, hroot⟩
  | text hs =>
    cases hopened with
    | cons hseen houter =>
      rw [coming, hs, Option.getD_some, ← addText_addText, ← addText_addText] at hseen
      exact ⟨_, .text hs, .cons hseen houter, hroot⟩
  | literal =>
    cases hopened with
    | cons hseen houter =>
      rw [coming, ← addText_addText, ← addText_addText] at hseen
      exact ⟨_, .literal, .cons hseen houter, hroot⟩
  | outside =>
    cases hopened
    exact ⟨_, .outside, .nil, hroot⟩
  | remark =>
    obtain ⟨f', more, rfl, hseen, hmore⟩ := exists_of_look (hopened.look_eq rfl)
    exact ⟨_, .remark, .addNode rfl rfl hseen rfl hmore rest, hroot⟩
  | closing hname hk =>
    obtain ⟨f', more, rfl, hseen, hmore⟩ := exists_of_look (hopened.look_eq rfl)
    obtain ⟨k', hk', hsame⟩ := same_finishElement hmore hroot (view_of_seen read _ hseen) hk rest
    exact ⟨k', .closing ((Frame.mk.inj hseen).1.symm.trans hname) hk', hsame⟩
  | opening hroom hf =>
    have hlook := hopened.look_eq rfl
    rw [isEmpty_of_look hlook, isSome_of_view hroot] at hroom
    rw [scope_of_look hlook] at hf
    exact ⟨_, .opening hroom hf, .cons rfl hlook, hroot⟩
  | closed hroom hf hk =>
    have hlook := hopened.look_eq rfl
    rw [isEmpty_of_look hlook, isSome_of_view hroot] at hroom
    rw [scope_of_look hlook] at hf
    obtain ⟨k', hk', hsame⟩ := same_finishElement hlook hroot rfl hk rest
    exact ⟨k', .closed hroom hf hk', hsame⟩

/-- The rest of a document keeps its two beginnings looking the same. -/
theorem Same.run {tokens : List Token} (h : Same read tokens g g')
    (hrun : tokens.foldlM Growing.step g = some k) :
    ∃ k', tokens.foldlM Growing.step g' = some k' ∧ Same read [] k k' := by
  induction tokens generalizing g g' with
  | nil =>
    obtain rfl := Option.some.inj hrun
    exact ⟨g', rfl, h⟩
  | cons t tokens ih =>
    obtain ⟨g₁, hstep, hrun⟩ := Option.bind_eq_some_iff.mp hrun
    obtain ⟨g₁', hstep', h⟩ := h.step (step_eq_some.mp hstep)
    obtain ⟨k', hrun', h⟩ := ih h hrun
    refine ⟨k', ?_, h⟩
    rw [List.foldlM_cons, step_eq_some.mpr hstep']
    exact hrun'

theorem finish_eq_some {root : Element} :
    g.finish = some root ↔ g.opened = [] ∧ g.root = some root := by
  simp [Growing.finish]

theorem Same.finish {root : Element} (h : Same read [] g g') (hroot : g.finish = some root) :
    ∃ root', g'.finish = some root' ∧ view read [] root = view read [] root' := by
  obtain ⟨hopened, hroot⟩ := finish_eq_some.mp hroot
  have hlook := h.opened.look_eq rfl
  have hview := h.root
  rw [hopened] at hlook
  rw [hroot, Option.map_some] at hview
  obtain ⟨root', hroot', heq⟩ := Option.map_eq_some_iff.mp hview.symm
  exact ⟨root', finish_eq_some.mpr ⟨look_eq_nil hlook, hroot'⟩, heq.symm⟩

theorem same_of_finish {root root' : Element} (hroot : g.finish = some root)
    (hroot' : g'.finish = some root') (hview : view read [] root = view read [] root') :
    Same read [] g g' := by
  obtain ⟨hopened, hroot⟩ := finish_eq_some.mp hroot
  obtain ⟨hopened', hroot'⟩ := finish_eq_some.mp hroot'
  refine ⟨?_, by rw [hroot, hroot', Option.map_some, Option.map_some, hview]⟩
  rw [hopened, hopened']
  exact .nil

/-! Looking back -/

/-- Documents that are built alike, whatever their texts. -/
abbrev Level (rest : List Token) (g g' : Growing) : Prop := Same (fun _ => false) rest g g'

theorem seen_eq {above : List String} {f f' : Frame} (hname : f.name = f'.name)
    (hspace : f.space = f'.space) (hattributes : f.attributes = f'.attributes)
    (hscope : f.scope = f'.scope)
    (hcontent : (seen read above f).content = (seen read above f').content) :
    seen read above f = seen read above f' := by
  have hfields (f : Frame) : seen read above f =
      ⟨f.name, f.space, f.attributes, f.scope, (seen read above f).content⟩ := rfl
  rw [hfields f, hfields f', hname, hspace, hattributes, hscope, hcontent]

theorem seen_of_view {above : List String} {f f' : Frame} (hname : f.name = f'.name)
    (hscope : f.scope = f'.scope)
    (h : view read above f.toElement = view read above f'.toElement) :
    seen read above f = seen read above f' := by
  rw [view_toElement, view_toElement] at h
  obtain ⟨-, hspace, hattributes, hcontent⟩ := Element.mk.inj h
  exact seen_eq hname hspace hattributes hscope hcontent

theorem Alike.of_look {opened opened' : List Frame} (h : look read opened = look read opened')
    (hrest : coming rest = []) : Alike read rest opened opened' := by
  cases opened with
  | nil =>
    obtain rfl := look_eq_nil h
    exact .nil
  | cons f outer =>
    obtain ⟨f', more, rfl, hseen, hmore⟩ := exists_of_look h
    refine .cons ?_ hmore
    rw [hrest, seen_addText_nil, seen_addText_nil, hseen]

/-- Elements that look the same with a node added looked the same before. -/
theorem look_of_addNode {f f' : Frame} {n n' : Node} (hn : parts n = true) (hn' : parts n' = true)
    (hlength : ∀ path, (viewOf read path [n]).length = (viewOf read path [n']).length)
    (h : Alike read rest (f.addNode n :: outer) (f'.addNode n' :: outer')) :
    viewOf read (names (f :: outer)) [n] = viewOf read (names (f :: outer)) [n'] ∧
      look read (f :: outer) = look read (f' :: outer') := by
  cases h with
  | cons hseen houter =>
    rw [seen_addNode_addText _ _ hn, seen_addNode_addText _ _ hn', seen_addNode _ _ hn,
      seen_addNode _ _ hn'] at hseen
    obtain ⟨hname, hspace, hattributes, hscope, hcontent⟩ := Frame.mk.inj hseen
    have hname : f.name = f'.name := hname
    rw [← hname] at hcontent
    obtain ⟨hcontent, hnode⟩ := List.append_inj' hcontent (hlength _)
    refine ⟨hnode, ?_⟩
    rw [look, look, houter, ← names_of_look houter,
      seen_eq hname hspace hattributes hscope hcontent]

theorem finishElement_back {root root' : Option Element} {e e' : Element} {k' : Growing}
    (hlevel : look (fun _ => false) outer = look (fun _ => false) outer')
    (h : Growing.finishElement outer root e = some k)
    (h' : Growing.finishElement outer' root' e' = some k') (hsame : Same read rest k k') :
    look read outer = look read outer' ∧ root.map (view read []) = root'.map (view read []) ∧
      view read (names outer) e = view read (names outer) e' := by
  cases outer with
  | nil =>
    obtain rfl := look_eq_nil hlevel
    simp only [Growing.finishElement] at h h'
    split at h
    · cases h
    · rename_i hroot
      split at h'
      · cases h'
      · rename_i hroot'
        obtain rfl := Option.some.inj h
        obtain rfl := Option.some.inj h'
        have hroot : root = none := by simpa using hroot
        have hroot' : root' = none := by simpa using hroot'
        exact ⟨rfl, by rw [hroot, hroot'], Option.some.inj hsame.root⟩
  | cons f outer =>
    obtain ⟨f', more, rfl, -, -⟩ := exists_of_look hlevel
    obtain rfl := Option.some.inj h
    obtain rfl := Option.some.inj h'
    have hopened : Alike read rest (f.addNode (.element e) :: outer)
        (f'.addNode (.element e') :: more) := hsame.opened
    have hlength (path : List String) : (viewOf read path [.element e]).length =
        (viewOf read path [.element e']).length := by
      simp only [viewOf, List.length_cons]
    obtain ⟨hnode, hlook⟩ := look_of_addNode rfl rfl hlength hopened
    simp only [viewOf, List.cons.injEq, Node.element.injEq, and_true] at hnode
    exact ⟨hlook, hsame.root, hnode⟩

/-- Two documents that look the same after a token did so before it. -/
theorem Same.step_back {t : Token} {k' : Growing} (hlevel : Level (t :: rest) g g')
    (hstep : Goes g t k) (hstep' : Goes g' t k') (h : Same read rest k k') :
    Same read (t :: rest) g g' := by
  obtain ⟨hopened, -⟩ := hlevel
  obtain ⟨hafter, hroot⟩ := h
  cases hstep with
  | blank =>
    cases hstep' with
    | blank => exact ⟨.nil, hroot⟩
    | text => cases hopened
  | text hs =>
    cases hstep' with
    | blank => cases hopened
    | text hs' =>
      obtain rfl := Option.some.inj (hs.symm.trans hs')
      cases hafter with
      | cons hseen houter =>
        rw [addText_addText, addText_addText] at hseen
        exact ⟨.cons (by rwa [coming, hs, Option.getD_some]) houter, hroot⟩
  | literal =>
    cases hstep'
    cases hafter with
    | cons hseen houter =>
      rw [addText_addText, addText_addText] at hseen
      exact ⟨.cons (by rwa [coming]) houter, hroot⟩
  | outside =>
    cases hstep' with
    | outside => exact ⟨.nil, hroot⟩
    | remark => cases hopened
  | remark =>
    cases hstep' with
    | outside => cases hopened
    | remark => exact ⟨.of_look (look_of_addNode rfl rfl (fun _ => rfl) hafter).2 rfl, hroot⟩
  | closing _ hk =>
    cases hstep' with
    | closing _ hk' =>
      obtain ⟨f', more, heq, hseen, hmore⟩ := exists_of_look (hopened.look_eq rfl)
      obtain ⟨rfl, rfl⟩ := List.cons.inj heq
      obtain ⟨hname, -, -, hscope, -⟩ := Frame.mk.inj hseen
      obtain ⟨hlook, hroot, hview⟩ := finishElement_back hmore hk hk' ⟨hafter, hroot⟩
      refine ⟨.of_look ?_ rfl, hroot⟩
      rw [look, look, hlook, ← names_of_look hmore, seen_of_view hname hscope hview]
  | opening =>
    cases hstep' with
    | opening =>
      cases hafter with
      | cons _ houter => exact ⟨.of_look houter rfl, hroot⟩
  | closed _ _ hk =>
    cases hstep' with
    | closed _ _ hk' =>
      obtain ⟨hlook, hroot, -⟩ := finishElement_back (hopened.look_eq rfl) hk hk' ⟨hafter, hroot⟩
      exact ⟨.of_look hlook rfl, hroot⟩

theorem Same.run_back {tokens : List Token} {k' : Growing} (hlevel : Level tokens g g')
    (hrun : tokens.foldlM Growing.step g = some k)
    (hrun' : tokens.foldlM Growing.step g' = some k') (h : Same read [] k k') :
    Same read tokens g g' := by
  induction tokens generalizing g g' with
  | nil =>
    obtain rfl := Option.some.inj hrun
    obtain rfl := Option.some.inj hrun'
    exact h
  | cons t tokens ih =>
    obtain ⟨g₁, hstep, hrun⟩ := Option.bind_eq_some_iff.mp hrun
    obtain ⟨g₁', hstep', hrun'⟩ := Option.bind_eq_some_iff.mp hrun'
    obtain ⟨g₂, hg₂, hlevel'⟩ := hlevel.step (step_eq_some.mp hstep)
    obtain rfl := Option.some.inj ((step_eq_some.mpr hg₂).symm.trans hstep')
    exact Same.step_back hlevel (step_eq_some.mp hstep) (step_eq_some.mp hstep')
      (ih hlevel' hrun hrun')

/-- The roots of two documents that are built alike look the same exactly if the documents did where
they had the same tokens to come. -/
theorem same_iff {tokens : List Token} (hlevel : Level tokens g g') {root : Element}
    (hrun : tokens.foldlM Growing.step g = some k) (hroot : k.finish = some root) :
    ∃ k' root', tokens.foldlM Growing.step g' = some k' ∧ k'.finish = some root' ∧
      ∀ read, view read [] root = view read [] root' ↔ Same read tokens g g' := by
  obtain ⟨k', hrun', hlevel'⟩ := hlevel.run hrun
  obtain ⟨root', hroot', -⟩ := hlevel'.finish hroot
  refine ⟨k', root', hrun', hroot', fun read => ⟨fun hview => ?_, fun hsame => ?_⟩⟩
  · exact Same.run_back hlevel hrun hrun' (same_of_finish hroot hroot' hview)
  · obtain ⟨k'', hk'', hsame⟩ := hsame.run hrun
    obtain rfl := Option.some.inj (hk''.symm.trans hrun')
    obtain ⟨root'', hroot'', hview⟩ := hsame.finish hroot
    rwa [Option.some.inj (hroot'.symm.trans hroot'')]

end

end Harvest.Growth
