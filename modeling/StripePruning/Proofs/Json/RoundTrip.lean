import StripePruning.Proofs.Json.Scanning

/-!
# Values are read back from their text

`Written` are the values whose text stands for them: their numbers are numerals and their strings
are texts.  The tokens of such a value are cut apart (`Written.scans`), and the value is built again
from them in any containers around it (`Written.builds`).  Both are inductions on the value with
one on the items or members of a container inside.  `Written.ofText?_text` puts them together.
-/

namespace StripePruning

namespace Json

/-- A value that its text stands for. -/
inductive Written : Json → Prop
  | null : Written .null
  | bool (value : Bool) : Written (.bool value)
  | number {text : String} (h : (Numeral.ofChars? text.toList).isSome = true) :
    Written (.number text)
  | string (text : String) : Written (.string (some text))
  | array {items : List Json} (h : ∀ item, item ∈ items → Written item) : Written (.array items)
  | object {members : List (Option String × Json)}
    (hkeys : ∀ member, member ∈ members → member.1.isSome = true)
    (h : ∀ member, member ∈ members → Written member.2) : Written (.object members)

variable {value : Json} {items : List Json} {members : List (Option String × Json)}

/-! ## Cutting -/

theorem scans_word {text : String} (h : text.toList ≠ [] ∧ text.toList.all isPlain = true) :
    Scans [.atom text] :=
  scans_atom h.1 (List.all_eq_true.1 h.2)

theorem scans_string (text : String) : Scans [.string (some text)] :=
  scans_nil.join rfl scans_nil

theorem scans_itemTokens (h : ∀ item, item ∈ items → Scans item.tokens) :
    Scans (itemTokens items) := by
  induction items with
  | nil => exact scans_nil
  | cons item rest ih =>
    have hitem := h item List.mem_cons_self
    cases rest with
    | nil => exact hitem
    | cons second rest =>
      exact hitem.join rfl (ih fun other hother => h other (List.mem_cons_of_mem item hother))

theorem scans_memberTokens (hkeys : ∀ member, member ∈ members → member.1.isSome = true)
    (h : ∀ member, member ∈ members → Scans member.2.tokens) : Scans (memberTokens members) := by
  induction members with
  | nil => exact scans_nil
  | cons member rest ih =>
    obtain ⟨key, value⟩ := member
    have hkey : Token.isDelimiter (.string key) = true := hkeys _ List.mem_cons_self
    have hvalue : Scans value.tokens := h _ List.mem_cons_self
    cases rest with
    | nil => exact scans_nil.join hkey (scans_nil.join rfl hvalue)
    | cons second rest =>
      have hrest := ih (fun other hother => hkeys other (List.mem_cons_of_mem _ hother))
        (fun other hother => h other (List.mem_cons_of_mem _ hother))
      exact scans_nil.join hkey (scans_nil.join rfl (hvalue.join rfl hrest))

/-- The tokens of a value are cut apart in its text. -/
theorem Written.scans (h : Written value) : Scans value.tokens := by
  induction h with
  | null => exact scans_word (by decide)
  | bool value => cases value <;> exact scans_word (by decide)
  | number htext =>
    obtain ⟨hne, hplain⟩ := isPlain_of_numeral htext
    exact scans_atom hne hplain
  | string text => exact scans_string text
  | array h ih => exact scans_nil.join rfl ((scans_itemTokens ih).join rfl scans_nil)
  | object hkeys h ih =>
    exact scans_nil.join rfl ((scans_memberTokens hkeys ih).join rfl scans_nil)

/-! ## Building -/

/-- The tokens of a value complete it, whatever is around it. -/
def Builds (value : Json) : Prop :=
  ∀ around, value.tokens.foldlM Builder.step? (.atValue around)
    = some (Builder.complete value around)

/-- No value begins with the end of an array, so the first item of an array is read like any
other value. -/
theorem step?_atFirstItem (around : List Frame) {token : Token} (htoken : token ≠ .closeArray) :
    Builder.step? (.atFirstItem around) token
      = Builder.step? (.atValue (.array [] :: around)) token := by
  cases token <;> first | rfl | exact absurd rfl htoken

theorem tokens_eq_cons (value : Json) :
    ∃ first rest, value.tokens = first :: rest ∧ first ≠ .closeArray := by
  cases value <;> exact ⟨_, _, rfl, by simp⟩

theorem foldlM_itemTokens (h : ∀ item, item ∈ items → Builds item) (hne : items ≠ [])
    (done : List Json) (around : List Frame) :
    (itemTokens items).foldlM Builder.step? (.atValue (.array done :: around))
      = some (.behindItem (items.reverse ++ done) around) := by
  induction items generalizing done with
  | nil => exact absurd rfl hne
  | cons item rest ih =>
    have hitem := h item List.mem_cons_self (.array done :: around)
    cases rest with
    | nil => exact hitem
    | cons second rest =>
      have hrest := ih (fun other hother => h other (List.mem_cons_of_mem item hother))
        (List.cons_ne_nil second rest) (item :: done)
      rw [List.reverse_cons, List.append_assoc]
      exact foldlM_append_of hitem (foldlM_cons_of rfl hrest)

/-- Reading the items of an array that is not empty does not depend on where they begin. -/
theorem foldlM_atFirstItem (hne : items ≠ []) (around : List Frame) :
    (itemTokens items).foldlM Builder.step? (.atFirstItem around)
      = (itemTokens items).foldlM Builder.step? (.atValue (.array [] :: around)) := by
  obtain ⟨item, rest, rfl⟩ := List.exists_cons_of_ne_nil hne
  obtain ⟨first, others, htokens, hfirst⟩ := tokens_eq_cons item
  obtain ⟨more, hmore⟩ : ∃ more, itemTokens (item :: rest) = first :: more := by
    cases rest with
    | nil => exact ⟨others, htokens⟩
    | cons second rest =>
      exact ⟨_, congrArg (· ++ Token.comma :: itemTokens (second :: rest)) htokens⟩
  rw [hmore, List.foldlM_cons, List.foldlM_cons, step?_atFirstItem around hfirst]

theorem builds_array (h : ∀ item, item ∈ items → Builds item) : Builds (.array items) := by
  intro around
  have hitems : (itemTokens items ++ [Token.closeArray]).foldlM Builder.step? (.atFirstItem around)
      = some (Builder.complete (.array items) around) := by
    by_cases hne : items = []
    · rw [hne]
      rfl
    · have hlist := foldlM_itemTokens h hne [] around
      rw [← foldlM_atFirstItem hne, List.append_nil] at hlist
      refine foldlM_append_of hlist (foldlM_cons_of rfl ?_)
      rw [List.reverse_reverse]
      rfl
  exact foldlM_cons_of rfl hitems

theorem foldlM_memberTokens (h : ∀ member, member ∈ members → Builds member.2)
    (hne : members ≠ []) (done : List (Option String × Json)) (around : List Frame) :
    (memberTokens members).foldlM Builder.step? (.atKey done around)
      = some (.behindMember (members.reverse ++ done) around) := by
  induction members generalizing done with
  | nil => exact absurd rfl hne
  | cons member rest ih =>
    obtain ⟨key, value⟩ := member
    have hvalue := h (key, value) List.mem_cons_self (.member done key :: around)
    cases rest with
    | nil => exact foldlM_cons_of rfl (foldlM_cons_of rfl hvalue)
    | cons second rest =>
      have hrest := ih (fun other hother => h other (List.mem_cons_of_mem _ hother))
        (List.cons_ne_nil second rest) ((key, value) :: done)
      rw [List.reverse_cons, List.append_assoc]
      refine foldlM_cons_of rfl (foldlM_cons_of rfl ?_)
      exact foldlM_append_of hvalue (foldlM_cons_of rfl hrest)

theorem builds_object (h : ∀ member, member ∈ members → Builds member.2) :
    Builds (.object members) := by
  intro around
  have hmembers : (memberTokens members ++ [Token.closeObject]).foldlM Builder.step?
      (.atFirstKey around) = some (Builder.complete (.object members) around) := by
    cases members with
    | nil => rfl
    | cons member rest =>
      -- The first key may come at once, as every later one behind a comma.
      have hfirst : (memberTokens (member :: rest)).foldlM Builder.step? (.atFirstKey around)
          = (memberTokens (member :: rest)).foldlM Builder.step? (.atKey [] around) := by
        cases rest <;> rfl
      have hlist := foldlM_memberTokens h (List.cons_ne_nil member rest) [] around
      rw [← hfirst, List.append_nil] at hlist
      refine foldlM_append_of hlist (foldlM_cons_of rfl ?_)
      rw [List.reverse_reverse]
      rfl
  exact foldlM_cons_of rfl hmembers

theorem builds_atom {text : String} {value : Json} (h : ofAtom? text = some value)
    (htokens : value.tokens = [.atom text]) : Builds value := by
  intro around
  have hstep : Builder.step? (.atValue around) (.atom text)
      = some (Builder.complete value around) := by
    show (ofAtom? text).map _ = _
    rw [h]
    rfl
  rw [htokens]
  exact foldlM_cons_of hstep rfl

/-- No word is a numeral. -/
theorem ofAtom?_numeral {text : String} (h : (Numeral.ofChars? text.toList).isSome = true) :
    ofAtom? text = some (.number text) := by
  obtain ⟨numeral, hnumeral⟩ := Option.isSome_iff_exists.1 h
  unfold ofAtom?
  split
  · exact absurd h (by decide)
  · exact absurd h (by decide)
  · exact absurd h (by decide)
  · rw [hnumeral]
    rfl

/-- A value is built from its tokens. -/
theorem Written.builds (h : Written value) : Builds value := by
  induction h with
  | null => exact builds_atom rfl rfl
  | bool value => cases value <;> exact builds_atom rfl rfl
  | number htext => exact builds_atom (ofAtom?_numeral htext) rfl
  | string text => exact fun around => rfl
  | array h ih => exact builds_array ih
  | object hkeys h ih => exact builds_object ih

/-- A value is read back from its text. -/
theorem Written.ofText?_text (h : Written value) : ofText? value.text = some value := by
  have htokens : ofTokens? value.tokens = some value := by
    have hbuild := h.builds []
    rw [ofTokens?, hbuild]
    rfl
  rw [ofText?, text, h.scans.scan?_eq]
  exact htokens

end Json

end StripePruning
