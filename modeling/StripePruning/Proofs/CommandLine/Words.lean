import StripePruning.CommandLine.Parse
import StripePruning.Proofs.Steps
import StripePruning.Proofs.Text.Pieces

/-!
# What the words of a command line spell

Reading takes one word after the other and remembers what waits.  `Spells` knows nothing of that:
it says which words spell which uses of flags.

* `Word.ofRaw_eq_long_iff` and its neighbours invert the form of a word, and
  `Flag.eq_ofString_of_valued` the name of a flag.
* `word_flag`, `word_attached`, `word_benchmarks` and `word_plain` say what reading does with a word
  of each form.  By `form` there are no others, but for those that are always refused.
* `run_withValue` and `run_forValue` dispose of what waits.
* `run_of_spells` and `exists_spells`: words are read exactly if they spell uses that can be made
  one after the other.
-/

namespace StripePruning

namespace CommandLine

/-! ## Words and what they say -/

/-- A use of a flag that is accepted. -/
inductive Use where
  | value (flag : ValueFlag) (value : RawText)
  | benchmarks
deriving DecidableEq

/-- The word of a flag: its name behind two dashes. -/
def flagWord (name : String) : RawText :=
  ⟨dash :: dash :: (RawText.ofString name).bytes⟩

/-- The word of a flag with a value attached. -/
def attachedWord (flag : ValueFlag) (value : RawText) : RawText :=
  ⟨dash :: dash :: (RawText.ofString flag.name).bytes ++ '='.toUInt8 :: value.bytes⟩

/-- Words that are no flags: if they begin with a dash, nothing follows. -/
def IsPlain (word : RawText) : Prop :=
  ∀ second rest, word.bytes ≠ dash :: second :: rest

/-- The words of a command line spell uses of flags.  A value is attached to its flag or stands
behind it, and two dashes may stand at the end. -/
inductive Spells : List RawText → List Use → Prop
  | nil : Spells [] []
  | endOfFlags : Spells [⟨[dash, dash]⟩] []
  | attached {words : List RawText} {uses : List Use} (flag : ValueFlag) (value : RawText)
    (h : Spells words uses) : Spells (attachedWord flag value :: words) (.value flag value :: uses)
  | separate {words : List RawText} {uses : List Use} (flag : ValueFlag) {value : RawText}
    (hvalue : IsPlain value) (h : Spells words uses) :
    Spells (flagWord flag.name :: value :: words) (.value flag value :: uses)
  | benchmarks {words : List RawText} {uses : List Use} (h : Spells words uses) :
    Spells (flagWord Switch.benchmarks.name :: words) (.benchmarks :: uses)

/-! ## Forms of words -/

namespace Word

variable {word name value : RawText}

theorem ofRaw_eq_plain_iff : ofRaw word = .plain value ↔ value = word ∧ IsPlain word := by
  obtain ⟨bytes⟩ := word
  unfold ofRaw IsPlain
  match bytes with
  | [] => simp [eq_comm]
  | [first] => simp [eq_comm]
  | first :: second :: rest =>
    by_cases hfirst : first = dash
    · by_cases hsecond : second = dash
      · by_cases hrest : rest = []
        · simp [hfirst, hsecond, hrest]
        · simp [hfirst, hsecond, hrest, splitFlag]
          split <;> simp
      · simp [hfirst, hsecond]
    · simp [hfirst, eq_comm]

theorem ofRaw_eq_endOfFlags_iff : ofRaw word = .endOfFlags ↔ word = ⟨[dash, dash]⟩ := by
  obtain ⟨bytes⟩ := word
  unfold ofRaw
  match bytes with
  | [] => simp
  | [first] => simp
  | first :: second :: rest =>
    by_cases hfirst : first = dash
    · by_cases hsecond : second = dash
      · by_cases hrest : rest = []
        · simp [hfirst, hsecond, hrest]
        · simp [hfirst, hsecond, hrest, splitFlag]
          split <;> simp
      · simp [hfirst, hsecond]
    · simp [hfirst]

/-- A long flag is what stands behind two dashes. -/
theorem ofRaw_eq_long_iff {value : Option RawText} : ofRaw word = .long name value ↔
    ∃ rest, rest ≠ [] ∧ word = ⟨dash :: dash :: rest⟩ ∧ splitFlag rest = .long name value := by
  obtain ⟨bytes⟩ := word
  unfold ofRaw
  match bytes with
  | [] => simp
  | [first] => simp
  | first :: second :: rest =>
    by_cases hfirst : first = dash
    · by_cases hsecond : second = dash
      · by_cases hrest : rest = []
        · simp [hfirst, hsecond, hrest]
        · simp [hfirst, hsecond, hrest]
      · simp [hfirst, hsecond]
    · simp [hfirst]

/-- The names of flags: they are not empty, and a value is not mistaken for a part of one. -/
def IsName (name : String) : Prop :=
  (RawText.ofString name).bytes ≠ [] ∧ '='.toUInt8 ∉ (RawText.ofString name).bytes

theorem isName_valueFlag (flag : ValueFlag) : IsName flag.name := by
  unfold IsName
  cases flag <;> decide

theorem isName_switch (switch : Switch) : IsName switch.name := by
  unfold IsName
  cases switch <;> decide

theorem ofRaw_flagWord {name : String} (h : IsName name) :
    ofRaw (flagWord name) = .long (.ofString name) none := by
  refine ofRaw_eq_long_iff.2 ⟨_, h.1, rfl, ?_⟩
  rw [splitFlag, cutAt?_eq_none_iff.2 h.2]

theorem ofRaw_attachedWord (flag : ValueFlag) (value : RawText) :
    ofRaw (attachedWord flag value) = .long (.ofString flag.name) (some value) := by
  refine ofRaw_eq_long_iff.2 ⟨_, List.append_ne_nil_of_right_ne_nil _ (List.cons_ne_nil _ _),
    rfl, ?_⟩
  rw [splitFlag, cutAt?_append (isName_valueFlag flag).2]

theorem eq_flagWord {name : String} (h : ofRaw word = .long (.ofString name) none) :
    word = flagWord name := by
  obtain ⟨rest, -, rfl, hsplit⟩ := ofRaw_eq_long_iff.1 h
  unfold splitFlag at hsplit
  split at hsplit
  · cases hsplit
  · cases hsplit
    rfl

theorem eq_attachedWord {flag : ValueFlag}
    (h : ofRaw word = .long (.ofString flag.name) (some value)) :
    word = attachedWord flag value := by
  obtain ⟨rest, -, rfl, hsplit⟩ := ofRaw_eq_long_iff.1 h
  unfold splitFlag at hsplit
  split at hsplit
  · rename_i name attached hcut
    cases hsplit
    rw [(cutAt?_eq_some_iff.1 hcut).1]
    rfl
  · cases hsplit

end Word

namespace Flag

variable {name : RawText}

theorem ofName?_valueFlag (flag : ValueFlag) :
    ofName? (.ofString flag.name) = some (.valued flag) := by
  cases flag <;> rfl

theorem ofName?_switch (switch : Switch) :
    ofName? (.ofString switch.name) = some (.bare switch) := by
  cases switch <;> rfl

theorem eq_ofString_of_valued {flag : ValueFlag} (h : ofName? name = some (.valued flag)) :
    name = .ofString flag.name := by
  unfold ofName? at h
  split at h
  · rename_i found hfound
    cases h
    have hname := List.find?_some hfound
    exact (beq_iff_eq.1 hname).symm
  · cases h
  · cases h

theorem eq_ofString_of_bare {switch : Switch} (h : ofName? name = some (.bare switch)) :
    name = .ofString switch.name := by
  unfold ofName? at h
  split at h
  · cases h
  · rename_i found hfound
    cases h
    have hname := List.find?_some hfound
    exact (beq_iff_eq.1 hname).symm
  · cases h

end Flag

/-! ## Single words -/

/-- The arguments with a use of a flag made. -/
def Arguments.use (a : Arguments) : Use → Except UsageFault Arguments
  | .value flag value => a.give flag value
  | .benchmarks => a.turnOn .benchmarks

namespace Reading

variable {r : Reading} {word : RawText}

section Allowed

variable (h : r.flagsAllowed = true)
include h

theorem word_endOfFlags : r.word ⟨[dash, dash]⟩ = .ok { r with flagsAllowed := false } := by
  rw [Reading.word, h, Word.ofRaw_eq_endOfFlags_iff.2 rfl]
  rfl

/-- A flag without its value waits for it. -/
theorem word_flag (flag : ValueFlag) :
    r.word (flagWord flag.name)
      = r.settle >>= fun s => .ok { s with waiting := .forValue flag } := by
  rw [Reading.word, h, Word.ofRaw_flagWord (Word.isName_valueFlag flag)]
  show r.long (.ofString flag.name) none = _
  unfold long
  rw [Flag.ofName?_valueFlag]
  rfl

/-- A value that is attached to its flag is given to it. -/
theorem word_attached (flag : ValueFlag) (value : RawText) :
    r.word (attachedWord flag value) = r.settle >>= fun s =>
      s.arguments.use (.value flag value) >>= fun b => .ok { s with arguments := b } := by
  rw [Reading.word, h, Word.ofRaw_attachedWord]
  show r.long (.ofString flag.name) (some value) = _
  unfold long
  rw [Flag.ofName?_valueFlag]
  rfl

theorem word_benchmarks :
    r.word (flagWord Switch.benchmarks.name) = r.settle >>= fun s =>
      s.arguments.use .benchmarks >>= fun b => .ok { s with arguments := b } := by
  rw [Reading.word, h, Word.ofRaw_flagWord (Word.isName_switch .benchmarks)]
  show r.long (.ofString Switch.benchmarks.name) none = _
  unfold long
  rw [Flag.ofName?_switch]
  rfl

/-- A word that is no flag is the value that is waited for. -/
theorem word_plain_forValue (hword : IsPlain word) {flag : ValueFlag}
    (hwaiting : r.waiting = .forValue flag) :
    r.word word = .ok { r with waiting := .withValue flag word } := by
  rw [Reading.word, h, Word.ofRaw_eq_plain_iff.2 ⟨rfl, hword⟩, hwaiting]
  rfl

/-- A word that is no flag is refused if no value is waited for. -/
theorem word_plain (hword : IsPlain word) (hwaiting : ∀ flag, r.waiting ≠ .forValue flag) :
    r.word word = .error (.unknownArgument word.display) := by
  rw [Reading.word, h, Word.ofRaw_eq_plain_iff.2 ⟨rfl, hword⟩]
  cases hnext : r.waiting with
  | forValue flag => exact absurd hnext (hwaiting flag)
  | nothing => rfl
  | withValue flag value => rfl

end Allowed

/-- The switches that ask for something else end the reading. -/
theorem switch_ne_ok {switch : Switch} (h : switch ≠ .benchmarks) (r r' : Reading) :
    r.switch switch ≠ .ok r' := by
  intro hswitch
  obtain ⟨s, -, hturn⟩ := except_bind_eq_ok.1 hswitch
  obtain ⟨b, hturn, -⟩ := except_bind_eq_ok.1 hturn
  cases switch with
  | benchmarks => exact h rfl
  | help => cases hturn
  | version => cases hturn

/-- What a word can be. -/
inductive Form : RawText → Prop
  | endOfFlags : Form ⟨[dash, dash]⟩
  | flag (flag : ValueFlag) : Form (flagWord flag.name)
  | attached (flag : ValueFlag) (value : RawText) : Form (attachedWord flag value)
  | benchmarks : Form (flagWord Switch.benchmarks.name)
  | plain {word : RawText} (h : IsPlain word) : Form word
  | refused {word : RawText} (h : ∀ r r' : Reading, r.word word ≠ .ok r') : Form word

/-- A word is refused if its form is. -/
theorem Form.of_refused (h : ∀ r r' : Reading, r.flagsAllowed = true → r.word word ≠ .ok r') :
    Form word := by
  refine .refused fun r r' hword => ?_
  cases hallowed : r.flagsAllowed with
  | true => exact h r r' hallowed hword
  | false =>
    rw [Reading.word, hallowed] at hword
    cases hword

theorem form (word : RawText) : Form word := by
  cases hform : Word.ofRaw word with
  | endOfFlags =>
    rw [Word.ofRaw_eq_endOfFlags_iff.1 hform]
    exact .endOfFlags
  | plain text => exact .plain (Word.ofRaw_eq_plain_iff.1 hform).2
  | short letter =>
    refine .of_refused fun r r' hallowed hword => ?_
    rw [Reading.word, hallowed, hform] at hword
    cases hletter : Switch.ofLetter? letter with
    | none => simp [hletter] at hword
    | some switch =>
      have hne : switch ≠ .benchmarks := by
        rintro rfl
        unfold Switch.ofLetter? at hletter
        split at hletter
        · cases hletter
        · split at hletter <;> cases hletter
      simp [hletter] at hword
      exact switch_ne_ok hne r r' hword
  | long name value =>
    have hlong {r r' : Reading} (hallowed : r.flagsAllowed = true) (hword : r.word word = .ok r') :
        r.long name value = .ok r' := by
      rw [Reading.word, hallowed, hform] at hword
      exact hword
    cases hname : Flag.ofName? name with
    | none =>
      refine .of_refused fun r r' hallowed hword => ?_
      have hnext := hlong hallowed hword
      simp [long, hname] at hnext
    | some found =>
      cases found with
      | valued flag =>
        obtain rfl := Flag.eq_ofString_of_valued hname
        cases value with
        | none =>
          rw [Word.eq_flagWord hform]
          exact .flag flag
        | some value =>
          rw [Word.eq_attachedWord hform]
          exact .attached flag value
      | bare switch =>
        obtain rfl := Flag.eq_ofString_of_bare hname
        cases value with
        | none =>
          by_cases hswitch : switch = .benchmarks
          · rw [Word.eq_flagWord hform, hswitch]
            exact .benchmarks
          · refine .of_refused fun r r' hallowed hword => ?_
            have hnext := hlong hallowed hword
            unfold long at hnext
            rw [hname] at hnext
            exact switch_ne_ok hswitch r r' hnext
        | some value =>
          refine .of_refused fun r r' hallowed hword => ?_
          have hnext := hlong hallowed hword
          simp [long, hname] at hnext

/-! ## Runs -/

variable {a a' : Arguments} {words : List RawText} {flag : ValueFlag} {value : RawText}

theorem run_nil (r : Reading) : r.run [] = r.settle >>= fun s => .ok s.arguments :=
  rfl

theorem run_cons (r : Reading) (word : RawText) (words : List RawText) :
    r.run (word :: words) = r.word word >>= fun r => r.run words := by
  rw [run, List.foldlM_cons]
  cases r.word word <;> rfl

/-- No word may follow the end of the flags. -/
theorem run_of_flagsEnded (h : r.flagsAllowed = false) :
    r.run words = .ok a' ↔ words = [] ∧ r.run [] = .ok a' := by
  cases words with
  | nil => simp
  | cons word words =>
    rw [run_cons, Reading.word, h]
    simp [bind, Except.bind]

/-- A value that waits is given to its flag, whatever comes next. -/
theorem run_withValue :
    ({ arguments := a, waiting := .withValue flag value } : Reading).run words = .ok a' ↔
      ∃ b, a.use (.value flag value) = .ok b ∧
        ({ arguments := b } : Reading).run words = .ok a' := by
  have hsettle (allowed : Bool) :
      settle { arguments := a, waiting := .withValue flag value, flagsAllowed := allowed }
        = a.use (.value flag value) >>= fun b => .ok { arguments := b, flagsAllowed := allowed } :=
    rfl
  rw [← except_bind_eq_ok]
  cases words with
  | nil =>
    rw [run_nil, hsettle]
    cases a.use (.value flag value) <;> rfl
  | cons word words =>
    simp only [run_cons]
    cases form word with
    | endOfFlags =>
      simp only [word_endOfFlags, except_bind_eq_ok, Except.ok.injEq, exists_eq_left',
        run_of_flagsEnded, run_nil, hsettle false]
      cases a.use (.value flag value) <;> simp [settle, and_comm]
    | flag other =>
      simp only [word_flag, hsettle]
      cases a.use (.value flag value) <;> rfl
    | attached other attached =>
      simp only [word_attached, hsettle]
      cases a.use (.value flag value) <;> rfl
    | benchmarks =>
      simp only [word_benchmarks, hsettle]
      cases a.use (.value flag value) <;> rfl
    | plain hword =>
      simp [word_plain, hword, except_bind_eq_ok]
    | refused hword =>
      simp [hword, except_bind_eq_ok]

/-- A flag that waits takes the next word, and there has to be one. -/
theorem run_forValue :
    ({ arguments := a, waiting := .forValue flag } : Reading).run words = .ok a' ↔
      ∃ value rest, words = value :: rest ∧ IsPlain value ∧ ∃ b, a.use (.value flag value) = .ok b ∧
        ({ arguments := b } : Reading).run rest = .ok a' := by
  have hsettle (allowed : Bool) :
      ({ arguments := a, waiting := .forValue flag, flagsAllowed := allowed } : Reading).settle
        = .error (.missingValue flag.name) := rfl
  cases words with
  | nil => simp [run_nil, hsettle, except_bind_eq_ok]
  | cons word words =>
    by_cases hplain : IsPlain word
    · rw [run_cons, word_plain_forValue rfl hplain rfl]
      simp [except_bind_eq_ok, run_withValue, hplain]
    · have hrun : ({ arguments := a, waiting := .forValue flag } : Reading).run (word :: words)
          ≠ .ok a' := by
        rw [run_cons]
        cases form word with
        | endOfFlags =>
          simp [word_endOfFlags, except_bind_eq_ok, run_of_flagsEnded, run_nil, hsettle]
        | flag other => simp [word_flag, hsettle, except_bind_eq_ok]
        | attached other value => simp [word_attached, hsettle, except_bind_eq_ok]
        | benchmarks => simp [word_benchmarks, hsettle, except_bind_eq_ok]
        | plain hword => exact absurd hword hplain
        | refused hword => simp [hword, except_bind_eq_ok]
      simp [hrun, hplain]

theorem run_endOfFlags : ({ arguments := a } : Reading).run (⟨[dash, dash]⟩ :: words) = .ok a' ↔
    words = [] ∧ a = a' := by
  rw [run_cons, word_endOfFlags rfl]
  show Reading.run _ words = .ok a' ↔ _
  rw [run_of_flagsEnded rfl]
  show words = [] ∧ Except.ok a = .ok a' ↔ _
  rw [Except.ok.injEq]

theorem run_flag : ({ arguments := a } : Reading).run (flagWord flag.name :: words) = .ok a' ↔
    ∃ value rest, words = value :: rest ∧ IsPlain value ∧ ∃ b, a.use (.value flag value) = .ok b ∧
      ({ arguments := b } : Reading).run rest = .ok a' := by
  rw [run_cons, word_flag rfl]
  exact run_forValue

theorem run_attached :
    ({ arguments := a } : Reading).run (attachedWord flag value :: words) = .ok a' ↔
      ∃ b, a.use (.value flag value) = .ok b ∧
        ({ arguments := b } : Reading).run words = .ok a' := by
  rw [run_cons, word_attached rfl, ← except_bind_eq_ok]
  show (a.use (.value flag value) >>= _) >>= _ = _ ↔ _
  cases a.use (.value flag value) <;> rfl

theorem run_benchmarks :
    ({ arguments := a } : Reading).run (flagWord Switch.benchmarks.name :: words) = .ok a' ↔
      ∃ b, a.use .benchmarks = .ok b ∧ ({ arguments := b } : Reading).run words = .ok a' := by
  rw [run_cons, word_benchmarks rfl, ← except_bind_eq_ok]
  show (a.use .benchmarks >>= _) >>= _ = _ ↔ _
  cases a.use .benchmarks <;> rfl

/-- Reading succeeds if the words spell uses that can be made one after the other. -/
theorem run_of_spells {uses : List Use} (h : Spells words uses)
    (huses : uses.foldlM Arguments.use a = .ok a') :
    ({ arguments := a } : Reading).run words = .ok a' := by
  induction h generalizing a with
  | nil => exact huses
  | endOfFlags => exact run_endOfFlags.2 ⟨rfl, Except.ok.inj huses⟩
  | attached flag value h ih =>
    obtain ⟨b, huse, hrest⟩ := except_bind_eq_ok.1 huses
    exact run_attached.2 ⟨b, huse, ih hrest⟩
  | separate flag hvalue h ih =>
    obtain ⟨b, huse, hrest⟩ := except_bind_eq_ok.1 huses
    exact run_flag.2 ⟨_, _, rfl, hvalue, b, huse, ih hrest⟩
  | benchmarks h ih =>
    obtain ⟨b, huse, hrest⟩ := except_bind_eq_ok.1 huses
    exact run_benchmarks.2 ⟨b, huse, ih hrest⟩

/-- Words that are read spell uses.  The induction is on the number of words, since a flag may take
two of them. -/
theorem exists_spells (h : ({ arguments := a } : Reading).run words = .ok a') :
    ∃ uses, Spells words uses ∧ uses.foldlM Arguments.use a = .ok a' := by
  induction hlength : words.length using Nat.strongRecOn generalizing a words with
  | ind n ih =>
    have hnext {use : Use} {rest : List RawText} (hrest : rest.length < n) {b : Arguments}
        (huse : a.use use = .ok b) (hrun : ({ arguments := b } : Reading).run rest = .ok a') :
        ∃ uses, Spells rest uses ∧ (use :: uses).foldlM Arguments.use a = .ok a' := by
      obtain ⟨uses, hspells, huses⟩ := ih rest.length hrest hrun rfl
      exact ⟨uses, hspells, except_bind_eq_ok.2 ⟨b, huse, huses⟩⟩
    cases words with
    | nil => exact ⟨[], .nil, h⟩
    | cons word words =>
      rw [List.length_cons] at hlength
      cases form word with
      | endOfFlags =>
        obtain ⟨rfl, rfl⟩ := run_endOfFlags.1 h
        exact ⟨[], .endOfFlags, rfl⟩
      | flag flag =>
        obtain ⟨value, rest, rfl, hvalue, b, huse, hrun⟩ := run_flag.1 h
        rw [List.length_cons] at hlength
        obtain ⟨uses, hspells, huses⟩ := hnext (by omega) huse hrun
        exact ⟨_, hspells.separate flag hvalue, huses⟩
      | attached flag value =>
        obtain ⟨b, huse, hrun⟩ := run_attached.1 h
        obtain ⟨uses, hspells, huses⟩ := hnext (by omega) huse hrun
        exact ⟨_, hspells.attached flag value, huses⟩
      | benchmarks =>
        obtain ⟨b, huse, hrun⟩ := run_benchmarks.1 h
        obtain ⟨uses, hspells, huses⟩ := hnext (by omega) huse hrun
        exact ⟨_, hspells.benchmarks, huses⟩
      | plain hword => simp [run_cons, word_plain, hword, except_bind_eq_ok] at h
      | refused hword => simp [run_cons, hword, except_bind_eq_ok] at h

end Reading

end CommandLine

end StripePruning
