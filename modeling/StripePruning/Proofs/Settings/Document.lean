import Mathlib.Data.List.TakeWhile
import StripePruning.Proofs.Json.RoundTrip
import StripePruning.Proofs.Steps
import StripePruning.Settings.Document

/-!
# Settings are read back from their document

What is written of settings can be read, and what is read are the settings again.

* Values first: numbers of 64 bits, texts, datasets and configurations of indexes.  Each has a lemma
  for the text of its value (`Written`) and one for reading the value.
* `Members` compares settings with the members that they are read from, member by member.
  `ofMembers?_eq_some_iff` says that reading is nothing else, and `membersIn?` finds the members in
  an object or an array.
* `Fits` is what the sizes in settings have in common, wherever they come from.
* `ofDocument_of_toDocument` puts these together.  `exists_toDocument_iff` says when settings can be
  written at all.
-/

namespace StripePruning

/-! ## Numbers -/

theorem readSize?_lt {text : List Char} {n : Nat} (h : readSize? text = some n) : n < UInt64.size := by
  unfold readSize? at h
  dsimp only at h
  split at h
  · split at h
    · rename_i hlt
      rwa [← Option.some.inj h]
    · exact absurd h.symm (Option.some_ne_none n)
  · exact absurd h.symm (Option.some_ne_none n)

namespace Json


/-- No numeral of a natural number but zero begins with a zero. -/
theorem head_toDigits {n : Nat} (hn : 0 < n) :
    ∃ c rest, Nat.toDigits 10 n = c :: rest ∧ c ≠ '0' := by
  induction n using Nat.strongRecOn with
  | ind n ih =>
    by_cases hdigit : n < 10
    · have hne : ∀ d, d < 10 → 0 < d → d.digitChar ≠ '0' := by decide
      exact ⟨_, [], Nat.toDigits_of_lt_base hdigit, hne n hdigit hn⟩
    · have hle : 10 ≤ n := Nat.le_of_not_lt hdigit
      obtain ⟨c, rest, hdigits, hc⟩ := ih (n / 10) (by omega) (by omega)
      rw [Nat.toDigits_of_base_le (by decide) hle, hdigits]
      exact ⟨c, _, rfl, hc⟩

theorem isWhole_toDigits (n : Nat) : Numeral.isWhole (Nat.toDigits 10 n) = true := by
  cases n with
  | zero => rfl
  | succ n =>
    obtain ⟨c, rest, hdigits, hc⟩ := head_toDigits n.succ_pos
    rw [hdigits, Numeral.isWhole]
    · exact decide_eq_true hc
    · exact fun hzero => absurd hzero hc

/-- A natural number is written as digits and nothing else. -/
theorem ofChars?_toString (n : Nat) : Numeral.ofChars? (toString n).toList
    = some { negative := false, whole := Nat.toDigits 10 n, fraction := [], exponent := none } := by
  have hchars : (toString n).toList = Nat.toDigits 10 n := Nat.toList_repr
  have hdigit : ∀ c, c ∈ Nat.toDigits 10 n → c.isDigit = true :=
    fun c hc => Nat.isDigit_of_mem_toDigits (by decide) (by decide) hc
  have htake : (Nat.toDigits 10 n).takeWhile Char.isDigit = Nat.toDigits 10 n :=
    List.takeWhile_eq_self_iff.2 hdigit
  have hdrop : (Nat.toDigits 10 n).dropWhile Char.isDigit = [] :=
    List.dropWhile_eq_nil_iff.2 hdigit
  have hmagnitude : Numeral.ofMagnitude? false (Nat.toDigits 10 n)
      = some { negative := false, whole := Nat.toDigits 10 n, fraction := [],
               exponent := none } := by
    rw [Numeral.ofMagnitude?, htake, hdrop]
    show (if Numeral.isWhole (Nat.toDigits 10 n) then _ else _) = _
    rw [isWhole_toDigits]
    rfl
  rw [hchars]
  unfold Numeral.ofChars?
  split
  · rename_i rest hsign
    rw [hsign] at hdigit
    exact absurd (hdigit '-' List.mem_cons_self) (by decide)
  · exact hmagnitude

theorem written_ofNat (n : Nat) : Written (ofNat n) := by
  apply Written.number
  rw [ofChars?_toString]
  rfl

/-- A number of 64 bits is read as the number that is written. -/
theorem size?_ofNat {n : Nat} (hn : n < UInt64.size) : (ofNat n).size? = some n := by
  have hdigits := digits_zeros_append 0 n
  rw [List.replicate_zero, List.nil_append] at hdigits
  have hvalue := digitsValue?_eq_some_iff.2 hdigits
  have hread : readSize? (Nat.toDigits 10 n) = some n := by
    unfold readSize?
    split
    · rename_i rest hsign
      rw [hsign] at hdigits
      exact absurd rfl hdigits.head_ne.1
    · dsimp only
      rw [hvalue]
      exact if_pos hn
  show (Numeral.ofChars? (toString n).toList).bind Numeral.size? = some n
  rw [ofChars?_toString]
  exact hread

theorem size?_lt {value : Json} {n : Nat} (h : value.size? = some n) : n < UInt64.size := by
  cases value with
  | number text =>
    obtain ⟨numeral, -, hsize⟩ := Option.bind_eq_some_iff.1 h
    unfold Numeral.size? at hsize
    split at hsize
    · exact absurd hsize.symm (Option.some_ne_none n)
    · exact readSize?_lt hsize
  | _ => exact absurd h.symm (Option.some_ne_none n)

theorem written_number_of_float? {text : String} (h : (number text).float?.isSome = true) :
    Written (number text) := by
  apply Written.number
  cases hnumeral : Numeral.ofChars? text.toList with
  | none =>
    have hnone : (number text).float? = none := by rw [float?, hnumeral, Option.bind_none]
    rw [hnone] at h
    exact absurd h (by decide)
  | some numeral => rfl

/-- A double that is read from what is written is written as a number. -/
theorem exists_ofFloat_eq {x : Float} (h : (ofFloat x).float? = some x) :
    ∃ text, ofFloat x = number text := by
  unfold ofFloat at h ⊢
  cases hcompact : compact? x with
  | none =>
    rw [hcompact] at h
    exact absurd h (Option.some_ne_none x).symm
  | some text => exact ⟨text, rfl⟩

theorem written_ofFloat {x : Float} (h : (ofFloat x).float? = some x) : Written (ofFloat x) := by
  obtain ⟨text, htext⟩ := exists_ofFloat_eq h
  rw [htext] at h ⊢
  exact written_number_of_float? (by rw [h]; rfl)

theorem isStrict_ofFloat {x : Float} (h : (ofFloat x).float? = some x) (depth : Nat) :
    isStrict depth (ofFloat x) = true := by
  obtain ⟨text, htext⟩ := exists_ofFloat_eq h
  rw [htext] at h ⊢
  have hread : (number text).float?.isSome = true := by rw [h]; rfl
  exact hread

/-! ## Texts and members -/

theorem written_ofStrings (texts : List String) : Written (ofStrings texts) := by
  apply Written.array
  intro item hitem
  obtain ⟨text, -, rfl⟩ := List.mem_map.1 hitem
  exact Written.string text

theorem list?_ofStrings (texts : List String) : (ofStrings texts).list? text? = some texts :=
  mapM_written fun _ _ => rfl

theorem written_ofMembers {members : List (String × Json)}
    (h : ∀ member, member ∈ members → Written member.2) : Written (ofMembers members) := by
  apply Written.object
  · intro member hmember
    obtain ⟨⟨key, value⟩, -, rfl⟩ := List.mem_map.1 hmember
    rfl
  · intro member hmember
    obtain ⟨⟨key, value⟩, hmem, rfl⟩ := List.mem_map.1 hmember
    exact h (key, value) hmem

theorem members?_ofMembers (members : List (String × Json)) :
    (ofMembers members).members? = some members :=
  mapM_written fun _ _ => rfl

/-- A member is found by its key if no other member has this key. -/
theorem field?_of_mem {members : List (String × Json)} (hnodup : (members.map (·.1)).Nodup)
    {key : String} {value : Json} (hmem : (key, value) ∈ members) :
    field? members key = some (some value) := by
  have hfilter : members.filter (fun member => member.1 == key) = [(key, value)] := by
    induction members with
    | nil => exact absurd hmem List.not_mem_nil
    | cons member rest ih =>
      rw [List.map_cons, List.nodup_cons] at hnodup
      rcases List.mem_cons.1 hmem with rfl | hrest
      · have hnone : rest.filter (fun member => member.1 == key) = [] := by
          rw [List.filter_eq_nil_iff]
          intro other hother heq
          exact hnodup.1 (List.mem_map.2 ⟨other, hother, beq_iff_eq.1 heq⟩)
        rw [List.filter_cons_of_pos (by simp), hnone]
      · have hne : member.1 ≠ key := by
          intro heq
          exact hnodup.1 (List.mem_map.2 ⟨(key, value), hrest, heq.symm⟩)
        rw [List.filter_cons_of_neg (by simpa using hne), ih hnodup.2 hrest]
  rw [field?, hfilter]

end Json

/-- A value of a member, or its default, has a property that all that is read has. -/
theorem of_memberOr {α : Type} {members : List (String × Json)} {key : String}
    {read : Json → Option α} {default value : α} (property : α → Prop)
    (hread : ∀ written value, read written = some value → property value)
    (hdefault : property default) (h : memberOr members key read default = some value) :
    property value := by
  obtain ⟨found, -, hvalue⟩ := Option.bind_eq_some_iff.1 h
  cases found with
  | none =>
    obtain rfl := Option.some.inj hvalue
    exact hdefault
  | some written => exact hread written value hvalue

/-! ## Datasets and indexes -/

namespace RawText

variable {path : RawText} {value : Json}

/-- A path is written exactly if it is text, and then as this text. -/
theorem toJson_eq_ok_iff :
    path.toJson = .ok value ↔ ∃ text, path = .ofString text ∧ value = .ofString text := by
  rw [toJson]
  cases htext : path.text? with
  | none =>
    have hnone := not_isText_iff.2 htext
    simp only [reduceCtorEq, false_iff]
    rintro ⟨text, hpath, -⟩
    exact hnone ⟨text, hpath⟩
  | some text =>
    obtain rfl := text?_eq_some_iff.1 htext
    constructor
    · intro h
      exact ⟨text, rfl, (Except.ok.inj h).symm⟩
    · rintro ⟨other, hother, rfl⟩
      have hsame : text = other := by
        rw [text?_eq_some_iff.2 hother] at htext
        exact (Option.some.inj htext).symm
      rw [hsame]

theorem isText_of_toJson (h : path.toJson = .ok value) : path.IsText := by
  obtain ⟨text, hpath, -⟩ := toJson_eq_ok_iff.1 h
  exact ⟨text, hpath⟩

theorem exists_toJson (h : path.IsText) : ∃ value, path.toJson = .ok value := by
  obtain ⟨text, hpath⟩ := h
  exact ⟨_, toJson_eq_ok_iff.2 ⟨text, hpath, rfl⟩⟩

theorem failsWith_toJson : FailsWith path.toJson (· = .pathNotText) := by
  rw [toJson]
  split
  · exact failsWith_ok _
  · exact failsWith_error rfl

theorem written_of_toJson (h : path.toJson = .ok value) : Json.Written value := by
  obtain ⟨text, -, rfl⟩ := toJson_eq_ok_iff.1 h
  exact Json.Written.string text

theorem ofJson?_of_toJson (h : path.toJson = .ok value) : ofJson? value = some path := by
  obtain ⟨text, rfl, rfl⟩ := toJson_eq_ok_iff.1 h
  rfl

/-- A path that is read is text. -/
theorem isText_of_ofJson? (h : ofJson? value = some path) : path.IsText := by
  obtain ⟨text, -, rfl⟩ := Option.map_eq_some_iff.1 h
  exact ⟨text, rfl⟩

end RawText

namespace Dataset

variable {d : Dataset} {value : Json}

theorem toJson_eq_ok_iff : d.toJson = .ok value ↔ ∃ path, d.path.toJson = .ok path ∧
    .ofMembers [("path", path), ("columns", .ofStrings d.columns)] = value := by
  rw [toJson, except_bind_eq_ok]
  simp only [pure, Except.pure, Except.ok.injEq]

theorem written_of_toJson (h : d.toJson = .ok value) : Json.Written value := by
  obtain ⟨path, hpath, rfl⟩ := toJson_eq_ok_iff.1 h
  apply Json.written_ofMembers
  intro member hmember
  simp only [List.mem_cons, List.not_mem_nil, or_false] at hmember
  rcases hmember with rfl | rfl
  · exact RawText.written_of_toJson hpath
  · exact Json.written_ofStrings d.columns

theorem ofJson?_of_toJson (h : d.toJson = .ok value) : ofJson? value = some d := by
  obtain ⟨path, hpath, rfl⟩ := toJson_eq_ok_iff.1 h
  have hread : ofJson? (.ofMembers [("path", path), ("columns", .ofStrings d.columns)])
      = (RawText.ofJson? path).bind fun path =>
          ((Json.ofStrings d.columns).list? Json.text?).bind fun columns =>
            some { path, columns } := rfl
  rw [hread, RawText.ofJson?_of_toJson hpath, Json.list?_ofStrings]
  rfl

/-- The path of a dataset that is read is text. -/
theorem isText_of_ofJson? (h : ofJson? value = some d) : d.path.IsText := by
  unfold ofJson? at h
  split at h
  · obtain ⟨path, hpath, h⟩ := Option.bind_eq_some_iff.1 h
    obtain ⟨columns, -, h⟩ := Option.bind_eq_some_iff.1 h
    obtain rfl := Option.some.inj h
    exact RawText.isText_of_ofJson? hpath
  · obtain ⟨members, -, h⟩ := Option.bind_eq_some_iff.1 h
    obtain ⟨path, hmember, h⟩ := Option.bind_eq_some_iff.1 h
    obtain ⟨columns, -, h⟩ := Option.bind_eq_some_iff.1 h
    obtain rfl := Option.some.inj h
    obtain ⟨found, -, hmember⟩ := Option.bind_eq_some_iff.1 hmember
    obtain ⟨written, -, hread⟩ := Option.bind_eq_some_iff.1 hmember
    exact RawText.isText_of_ofJson? hread

end Dataset

namespace IndexConfig

/-- The parameter of a configuration, if it has one, is read as it is written. -/
def IsReadable (config : IndexConfig) : Prop :=
  ∀ p, config = .perStripeBloom p → (Json.ofFloat p).float? = some p

theorem written_toJson {config : IndexConfig} (h : config.IsReadable) :
    Json.Written config.toJson := by
  cases config with
  | zoneMap =>
    refine Json.written_ofMembers fun member hmember => ?_
    rw [List.mem_singleton.1 hmember]
    exact Json.Written.string _
  | perValueBitmap =>
    refine Json.written_ofMembers fun member hmember => ?_
    rw [List.mem_singleton.1 hmember]
    exact Json.Written.string _
  | perStripeBloom p =>
    refine Json.written_ofMembers fun member hmember => ?_
    simp only [List.mem_cons, List.not_mem_nil, or_false] at hmember
    rcases hmember with rfl | rfl
    · exact Json.Written.string _
    · exact Json.written_ofFloat (h p rfl)

theorem ofJson?_toJson {config : IndexConfig} (h : config.IsReadable) :
    ofJson? (Json.nestingLimit - Settings.depthOfIndexes) config.toJson = some config := by
  cases config with
  | zoneMap => rfl
  | perValueBitmap => rfl
  | perStripeBloom p =>
    have hp := h p rfl
    have hstrict : (toJson (.perStripeBloom p)).isStrict
        (Json.nestingLimit - Settings.depthOfIndexes) = true := by
      show (Json.isStrict _ (Json.ofFloat p) && true) = true
      rw [Json.isStrict_ofFloat hp]
      rfl
    have hfamily : ofFamily? "per_stripe_bloom" (some (Json.ofFloat p))
        = some (.perStripeBloom p) := by
      show (Json.ofFloat p).float?.map perStripeBloom = _
      rw [hp]
      rfl
    show (if !(toJson (.perStripeBloom p)).isStrict _ then none else _) = _
    rw [hstrict]
    exact hfamily

end IndexConfig

/-! ## Settings -/

namespace Settings

variable {members : List (String × Json)} {s : Settings}

/-- The reader of one index in settings. -/
abbrev readIndex : Json → Option IndexConfig :=
  IndexConfig.ofJson? (Json.nestingLimit - depthOfIndexes)

/-- Every setting is its member if there is one, and its default otherwise.  There are no other
members. -/
structure Members (members : List (String × Json)) (s : Settings) : Prop where
  known : ∀ member, member ∈ members → member.1 ∈ memberNames
  rows : memberOr members "generate_num_values" Json.size? ({} : Settings).rows = some s.rows
  uniqueValues : memberOr members "num_unique_values" Json.size? ({} : Settings).uniqueValues
    = some s.uniqueValues
  datasets : memberOr members "datasets" (Json.list? Dataset.ofJson?) ({} : Settings).datasets
    = some s.datasets
  sorting : memberOr members "sorting" Json.text? ({} : Settings).sorting = some s.sorting
  stripeSizes : memberOr members "stripe_sizes" (Json.list? Json.size?)
    ({} : Settings).stripeSizes = some s.stripeSizes
  indexes : memberOr members "indexes" (Json.list? readIndex) ({} : Settings).indexes
    = some s.indexes
  testCases : memberOr members "test_cases" (Json.list? Json.text?) ({} : Settings).testCases
    = some s.testCases
  lookups : memberOr members "num_lookups" Json.size? ({} : Settings).lookups = some s.lookups
  benchmarks : memberOr members "lookup_benchmarks" Json.bool? ({} : Settings).benchmarks
    = some s.benchmarks
  batchSize : memberOr members "lookup_batch_size" Json.size? ({} : Settings).batchSize
    = some s.batchSize
  minBenchMillis : memberOr members "min_bench_time_ms" Json.size? ({} : Settings).minBenchMillis
    = some s.minBenchMillis
  workload : memberOr members "workload" nullablePath? ({} : Settings).workload = some s.workload

theorem ofMembers?_eq_some_iff : ofMembers? members = some s ↔ Members members s := by
  have hunknown : (members.any fun member => !memberNames.contains member.1) = true ↔
      ¬ ∀ member, member ∈ members → member.1 ∈ memberNames := by
    simp
  unfold ofMembers?
  dsimp only
  by_cases hknown : ∀ member, member ∈ members → member.1 ∈ memberNames
  · rw [if_neg (fun h => hunknown.1 h hknown)]
    simp only [Option.bind_eq_bind, Option.bind_eq_some_iff, Option.pure_def, Option.some_inj]
    constructor
    · intro h
      obtain ⟨_, h1, _, h2, _, h3, _, h4, _, h5, _, h6, _, h7, _, h8, _, h9, _, h10, _, h11, _,
        h12, rfl⟩ := h
      exact ⟨hknown, h1, h2, h3, h4, h5, h6, h7, h8, h9, h10, h11, h12⟩
    · intro h
      exact ⟨_, h.rows, _, h.uniqueValues, _, h.datasets, _, h.sorting, _, h.stripeSizes, _,
        h.indexes, _, h.testCases, _, h.lookups, _, h.benchmarks, _, h.batchSize, _,
        h.minBenchMillis, _, h.workload, rfl⟩
  · rw [if_pos (hunknown.2 hknown)]
    exact ⟨fun h => absurd h.symm (Option.some_ne_none s), fun h => absurd h.known hknown⟩

/-- Without members all settings are defaults. -/
theorem members_standard : Members [] {} where
  known _ hmember := absurd hmember List.not_mem_nil
  rows := rfl
  uniqueValues := rfl
  datasets := rfl
  sorting := rfl
  stripeSizes := rfl
  indexes := rfl
  testCases := rfl
  lookups := rfl
  benchmarks := rfl
  batchSize := rfl
  minBenchMillis := rfl
  workload := rfl

/-- The members that a value gives: those of an object, or the items of an array with the names of
the settings in their order. -/
def membersIn? : Json → Option (List (String × Json))
  | .array items => some (memberNames.zip items)
  | value => value.members?

theorem members_of_ofJson? {value : Json} (h : ofJson? value = some s) :
    ∃ members, membersIn? value = some members ∧ Members members s := by
  cases value with
  | array items =>
    rw [ofJson?] at h
    split at h
    · exact ⟨_, rfl, ofMembers?_eq_some_iff.1 h⟩
    · cases h
  | object members =>
    obtain ⟨found, hfound, hread⟩ := Option.bind_eq_some_iff.1 h
    exact ⟨found, hfound, ofMembers?_eq_some_iff.1 hread⟩
  | _ => cases h

/-! ## Sizes -/

/-- The sizes in settings are numbers of 64 bits. -/
structure Fits (s : Settings) : Prop where
  rows : s.rows < UInt64.size
  uniqueValues : s.uniqueValues < UInt64.size
  stripeSizes : ∀ n, n ∈ s.stripeSizes → n < UInt64.size
  lookups : s.lookups < UInt64.size
  batchSize : s.batchSize < UInt64.size
  minBenchMillis : s.minBenchMillis < UInt64.size

theorem fits_standard : Fits {} where
  rows := by decide
  uniqueValues := by decide
  stripeSizes := by decide
  lookups := by decide
  batchSize := by decide
  minBenchMillis := by decide

theorem Members.fits (h : Members members s) : s.Fits := by
  have hsize : ∀ written n, Json.size? written = some n → n < UInt64.size :=
    fun _ _ => Json.size?_lt
  have hsizes : ∀ written sizes, Json.list? Json.size? written = some sizes →
      ∀ n, n ∈ sizes → n < UInt64.size := by
    intro written sizes hread n hn
    cases written with
    | array items =>
      obtain ⟨item, -, hitem⟩ := exists_of_mem_mapM_some hread hn
      exact Json.size?_lt hitem
    | _ => exact absurd hread.symm (Option.some_ne_none sizes)
  exact {
    rows := of_memberOr (· < UInt64.size) hsize fits_standard.rows h.rows
    uniqueValues := of_memberOr (· < UInt64.size) hsize fits_standard.uniqueValues h.uniqueValues
    stripeSizes := of_memberOr (∀ n, n ∈ · → n < UInt64.size) hsizes fits_standard.stripeSizes
      h.stripeSizes
    lookups := of_memberOr (· < UInt64.size) hsize fits_standard.lookups h.lookups
    batchSize := of_memberOr (· < UInt64.size) hsize fits_standard.batchSize h.batchSize
    minBenchMillis := of_memberOr (· < UInt64.size) hsize fits_standard.minBenchMillis
      h.minBenchMillis }

/-! ## Paths -/

/-- The paths in settings are texts. -/
def PathsAreText (s : Settings) : Prop :=
  (∀ d, d ∈ s.datasets → d.path.IsText) ∧ ∀ path, s.workload = some path → path.IsText

/-- The paths in settings that are read are texts. -/
theorem Members.pathsAreText (h : Members members s) : s.PathsAreText := by
  constructor
  · refine of_memberOr (fun found : List Dataset => ∀ d, d ∈ found → d.path.IsText) ?_ ?_
      h.datasets
    · intro written found hread d hd
      cases written with
      | array items =>
        obtain ⟨item, -, hitem⟩ := exists_of_mem_mapM_some hread hd
        exact Dataset.isText_of_ofJson? hitem
      | _ => exact absurd hread.symm (Option.some_ne_none found)
    · intro d hd
      exact absurd hd List.not_mem_nil
  · refine of_memberOr (fun found : Option RawText => ∀ path, found = some path → path.IsText)
      ?_ ?_ h.workload
    · intro written found hread path hpath
      unfold nullablePath? at hread
      split at hread
      · rw [← Option.some.inj hread] at hpath
        cases hpath
      · obtain ⟨other, hother, hsame⟩ := Option.map_eq_some_iff.1 hread
        rw [← hsame, Option.some_inj] at hpath
        exact RawText.isText_of_ofJson? (hpath ▸ hother)
    · intro path hpath
      cases hpath

/-! ## Writing and reading -/

theorem keys_membersWith (s : Settings) (datasets workload : Json) :
    (s.membersWith datasets workload).map (·.1) = memberNames :=
  rfl

theorem nodup_memberNames : memberNames.Nodup := by
  decide

variable {datasets workload : Json}

/-- A member that is written is read. -/
theorem memberOr_membersWith {α : Type} {key : String} {value : Json}
    (hmem : (key, value) ∈ s.membersWith datasets workload) {read : Json → Option α} {result : α}
    (hread : read value = some result) (default : α) :
    memberOr (s.membersWith datasets workload) key read default = some result := by
  have hnodup : ((s.membersWith datasets workload).map (·.1)).Nodup := nodup_memberNames
  rw [memberOr, Json.field?_of_mem hnodup hmem]
  exact hread

/-- The members that are written of settings are members of the settings. -/
theorem members_membersWith (h : s.Fits)
    (hindexes : ∀ config, config ∈ s.indexes → config.IsReadable)
    (hdatasets : datasets.list? Dataset.ofJson? = some s.datasets)
    (hworkload : nullablePath? workload = some s.workload) :
    Members (s.membersWith datasets workload) s where
  known member hmember := by
    rw [← keys_membersWith s datasets workload]
    exact List.mem_map_of_mem hmember
  rows := memberOr_membersWith (by simp [membersWith]) (Json.size?_ofNat h.rows) _
  uniqueValues := memberOr_membersWith (by simp [membersWith]) (Json.size?_ofNat h.uniqueValues) _
  datasets := memberOr_membersWith (by simp [membersWith]) hdatasets _
  sorting := by
    have hread : (Json.ofString s.sorting).text? = some s.sorting := rfl
    exact memberOr_membersWith (by simp [membersWith]) hread _
  stripeSizes := by
    have hread : (Json.array (s.stripeSizes.map Json.ofNat)).list? Json.size?
        = some s.stripeSizes := mapM_written fun n hn => Json.size?_ofNat (h.stripeSizes n hn)
    exact memberOr_membersWith (by simp [membersWith]) hread _
  indexes := by
    have hread : (Json.array (s.indexes.map IndexConfig.toJson)).list? readIndex
        = some s.indexes :=
      mapM_written fun config hc => IndexConfig.ofJson?_toJson (hindexes config hc)
    exact memberOr_membersWith (by simp [membersWith]) hread _
  testCases := memberOr_membersWith (by simp [membersWith]) (Json.list?_ofStrings s.testCases) _
  lookups := memberOr_membersWith (by simp [membersWith]) (Json.size?_ofNat h.lookups) _
  benchmarks := by
    have hread : (Json.bool s.benchmarks).bool? = some s.benchmarks := rfl
    exact memberOr_membersWith (by simp [membersWith]) hread _
  batchSize := memberOr_membersWith (by simp [membersWith]) (Json.size?_ofNat h.batchSize) _
  minBenchMillis :=
    memberOr_membersWith (by simp [membersWith]) (Json.size?_ofNat h.minBenchMillis) _
  workload := memberOr_membersWith (by simp [membersWith]) hworkload _

theorem nullablePath?_of_workloadJson (h : s.workloadJson = .ok workload) :
    nullablePath? workload = some s.workload := by
  rw [workloadJson] at h
  cases hworkload : s.workload with
  | none =>
    rw [hworkload] at h
    obtain rfl := Except.ok.inj h
    rfl
  | some path =>
    rw [hworkload] at h
    obtain ⟨text, rfl, rfl⟩ := RawText.toJson_eq_ok_iff.1 h
    rfl

theorem written_of_workloadJson (h : s.workloadJson = .ok workload) : Json.Written workload := by
  rw [workloadJson] at h
  split at h
  · exact RawText.written_of_toJson h
  · obtain rfl := Except.ok.inj h
    exact Json.Written.null

theorem written_membersWith (hindexes : ∀ config, config ∈ s.indexes → config.IsReadable)
    (hdatasets : Json.Written datasets) (hworkload : Json.Written workload) :
    Json.Written (.ofMembers (s.membersWith datasets workload)) := by
  apply Json.written_ofMembers
  intro member hmember
  simp only [membersWith, List.mem_cons, List.not_mem_nil, or_false] at hmember
  rcases hmember with rfl | rfl | rfl | rfl | rfl | rfl | rfl | rfl | rfl | rfl | rfl | rfl
  · exact Json.written_ofNat s.rows
  · exact Json.written_ofNat s.uniqueValues
  · exact hdatasets
  · exact Json.Written.string s.sorting
  · apply Json.Written.array
    intro item hitem
    obtain ⟨n, -, rfl⟩ := List.mem_map.1 hitem
    exact Json.written_ofNat n
  · apply Json.Written.array
    intro item hitem
    obtain ⟨config, hconfig, rfl⟩ := List.mem_map.1 hitem
    exact IndexConfig.written_toJson (hindexes config hconfig)
  · exact Json.written_ofStrings s.testCases
  · exact Json.written_ofNat s.lookups
  · exact Json.Written.bool s.benchmarks
  · exact Json.written_ofNat s.batchSize
  · exact Json.written_ofNat s.minBenchMillis
  · exact hworkload

/-- Settings are written if their datasets and their workload are. -/
theorem toDocument_eq_ok_iff {text : String} : s.toDocument = .ok text ↔
    ∃ datasets, s.datasets.mapM Dataset.toJson = .ok datasets ∧
      ∃ workload, s.workloadJson = .ok workload ∧
        (Json.ofMembers (s.membersWith (.array datasets) workload)).text = text := by
  simp only [toDocument, toJson, except_bind_eq_ok, pure, Except.pure, Except.ok.injEq]
  constructor
  · rintro ⟨_, ⟨datasets, hdatasets, workload, hworkload, rfl⟩, htext⟩
    exact ⟨datasets, hdatasets, workload, hworkload, htext⟩
  · rintro ⟨datasets, hdatasets, workload, hworkload, htext⟩
    exact ⟨_, ⟨datasets, hdatasets, workload, hworkload, rfl⟩, htext⟩

/-- Settings are read back from the document that is written of them. -/
theorem ofDocument_of_toDocument (h : s.Fits)
    (hindexes : ∀ config, config ∈ s.indexes → config.IsReadable) {text : String}
    (hdocument : s.toDocument = .ok text) : ofDocument text = .ok s := by
  obtain ⟨datasets, hdatasets, workload, hworkload, rfl⟩ := toDocument_eq_ok_iff.1 hdocument
  have hlist : (Json.array datasets).list? Dataset.ofJson? = some s.datasets :=
    mapM_read_of_mapM_ok (fun _ _ => Dataset.ofJson?_of_toJson) hdatasets
  have hread : ofJson? (.ofMembers (s.membersWith (.array datasets) workload)) = some s := by
    show ((Json.ofMembers _).members? >>= fun members => ofMembers? members) = some s
    rw [Json.members?_ofMembers]
    exact ofMembers?_eq_some_iff.2 (members_membersWith h hindexes hlist
      (nullablePath?_of_workloadJson hworkload))
  have hwritten : Json.Written (.array datasets) := by
    apply Json.Written.array
    intro item hitem
    obtain ⟨d, -, hd⟩ := exists_of_mem_mapM_ok hdatasets hitem
    exact Dataset.written_of_toJson hd
  have htext := written_membersWith hindexes hwritten (written_of_workloadJson hworkload)
  rw [ofDocument, htext.ofText?_text, Option.bind_some, hread]

/-- Settings are written exactly if their paths are texts. -/
theorem exists_toDocument_iff : (∃ text, s.toDocument = .ok text) ↔ s.PathsAreText := by
  simp only [toDocument_eq_ok_iff]
  constructor
  · rintro ⟨_, datasets, hdatasets, workload, hworkload, -⟩
    constructor
    · intro d hd
      obtain ⟨value, hvalue⟩ := exists_of_mapM_ok hdatasets hd
      obtain ⟨path, hpath, -⟩ := Dataset.toJson_eq_ok_iff.1 hvalue
      exact RawText.isText_of_toJson hpath
    · intro path hpath
      rw [workloadJson, hpath] at hworkload
      exact RawText.isText_of_toJson hworkload
  · intro h
    have hdataset (d : Dataset) (hd : d ∈ s.datasets) : ∃ value, d.toJson = .ok value := by
      obtain ⟨path, hpath⟩ := RawText.exists_toJson (h.1 d hd)
      exact ⟨_, Dataset.toJson_eq_ok_iff.2 ⟨path, hpath, rfl⟩⟩
    have hpath : ∃ workload, s.workloadJson = .ok workload := by
      rw [workloadJson]
      cases hworkload : s.workload with
      | none => exact ⟨.null, rfl⟩
      | some path => exact RawText.exists_toJson (h.2 path hworkload)
    obtain ⟨datasets, hdatasets⟩ := exists_mapM_ok hdataset
    obtain ⟨workload, hworkload⟩ := hpath
    exact ⟨_, datasets, hdatasets, workload, hworkload, rfl⟩

/-- Nothing but a path that is not text keeps settings from being written. -/
theorem failsWith_toDocument : FailsWith s.toDocument (· = .pathNotText) := by
  have hdatasets : FailsWith (s.datasets.mapM Dataset.toJson) (· = .pathNotText) :=
    .mapM fun d _ => RawText.failsWith_toJson.bind fun path _ => failsWith_ok _
  have hworkload : FailsWith s.workloadJson (· = .pathNotText) := by
    rw [workloadJson]
    split
    · exact RawText.failsWith_toJson
    · exact failsWith_ok _
  refine FailsWith.bind ?_ fun value _ => failsWith_ok _
  exact hdatasets.bind fun datasets _ => hworkload.bind fun workload _ => failsWith_ok _

/-- Settings with a path that is not text are not written. -/
theorem toDocument_eq_error (h : ¬ s.PathsAreText) : s.toDocument = .error .pathNotText := by
  cases hdocument : s.toDocument with
  | ok text => exact absurd (exists_toDocument_iff.1 ⟨text, hdocument⟩) h
  | error error => rw [failsWith_toDocument error hdocument]

end Settings

end StripePruning
