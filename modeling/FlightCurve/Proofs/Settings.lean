import FlightCurve.Curve.Trajectory
import FlightCurve.Proofs.Display
import FlightCurve.Proofs.Documents
import FlightCurve.Proofs.Doubles
import FlightCurve.Settings

/-!
What comes of loading settings. There are settings that hold what they promise, or something in the
document or in the environment is wrong and the error says so. Neither is the case where a number is
too large to be handled, or where a value that is wrong cannot be shown.
-/

namespace FlightCurve

open Toml (Value)

/-! Verdicts -/

/-- The outcome of a check: a result if nothing is wrong, and an error otherwise, unless something
keeps the check from a verdict. -/
def Answers {α : Type} (Good : α → Prop) (Wrong : Prop) (Unhandled : SettingsFailure → Prop) :
    Except SettingsFailure α → Prop
  | .ok a => Good a ∧ ¬Wrong ∧ ∀ failure, ¬Unhandled failure
  | .error (.invalid _) => Wrong ∧ ∀ failure, ¬Unhandled failure
  | .error failure => Unhandled failure

section Verdicts

variable {α β : Type} {Good : α → Prop} {Wrong Wrong' : Prop}
  {Unhandled Unhandled' : SettingsFailure → Prop}

theorem Answers.congr {r : Except SettingsFailure α} (h : Answers Good Wrong Unhandled r)
    (hwrong : Wrong ↔ Wrong') (hunhandled : ∀ failure, Unhandled failure ↔ Unhandled' failure) :
    Answers Good Wrong' Unhandled' r := by
  have hpredicate : Unhandled = Unhandled' := funext fun failure => propext (hunhandled failure)
  rw [← hpredicate, ← propext hwrong]
  exact h

/-- Two checks after one another. What the second one says counts if the first finds nothing. -/
theorem Answers.bind {GoodAfter : β → Prop} {r : Except SettingsFailure α}
    {next : α → Except SettingsFailure β} (h : Answers Good Wrong Unhandled r)
    (hnext : ∀ a, Good a → Answers GoodAfter Wrong' Unhandled' (next a)) :
    Answers GoodAfter (Wrong ∨ Wrong')
      (fun failure => Unhandled failure ∨ (¬Wrong ∧ Unhandled' failure)) (r >>= next) := by
  cases r with
  | error failure =>
      -- the second check is not reached, and counts for nothing
      cases failure with
      | invalid e =>
          obtain ⟨hwrong, hnone⟩ := h
          exact ⟨.inl hwrong, fun failure => not_or.2 ⟨hnone failure, fun h => h.1 hwrong⟩⟩
      | integerTooLarge => exact .inl h
      | tooManyDigits digits => exact .inl h
      | tooDeep => exact .inl h
  | ok a =>
      obtain ⟨hgood, hright, hnone⟩ := h
      have hafter := hnext a hgood
      change Answers _ _ _ (next a)
      cases hr : next a with
      | ok b =>
          rw [hr] at hafter
          obtain ⟨hgood', hright', hnone'⟩ := hafter
          exact ⟨hgood', not_or.2 ⟨hright, hright'⟩,
            fun failure => not_or.2 ⟨hnone failure, fun h => hnone' failure h.2⟩⟩
      | error failure =>
          rw [hr] at hafter
          cases failure with
          | invalid e =>
              obtain ⟨hwrong', hnone'⟩ := hafter
              exact ⟨.inr hwrong',
                fun failure => not_or.2 ⟨hnone failure, fun h => hnone' failure h.2⟩⟩
          | integerTooLarge => exact .inr ⟨hright, hafter⟩
          | tooManyDigits digits => exact .inr ⟨hright, hafter⟩
          | tooDeep => exact .inr ⟨hright, hafter⟩

end Verdicts

/-! Values -/

/-- The settings, in the order in which they are checked. -/
inductive Setting
  | flightTime
  | samples
  | precision
  deriving DecidableEq, Repr

namespace Setting

def key : Setting → String
  | .flightTime => flightTimeKey
  | .samples => samplesKey
  | .precision => precisionKey

/-- The settings that are checked before. -/
def earlier : Setting → List Setting
  | .flightTime => []
  | .samples => [.flightTime]
  | .precision => [.flightTime, .samples]

/-- The values that a setting may have. -/
def Admits : Setting → Value → Prop
  | .flightTime, .int n => 0 < n
  | .flightTime, .float x => IsDuration x
  | .samples, .int n => 1 ≤ n
  | .precision, .int n => 0 ≤ n ∧ n ≤ maxPrecision
  | _, _ => False

/-- What keeps a check from a verdict on a value: a flight time that no double comes near, or a
value that is wrong and cannot be shown. -/
def Defeats (setting : Setting) (v : Value) : SettingsFailure → Prop
  | .integerTooLarge => setting = .flightTime ∧ ∃ n : Int, v = .int n ∧ Double.leastInfinite ≤ n
  | .tooManyDigits none =>
      ¬setting.Admits v ∧ v.Obstructed Toml.maxDisplayRoom .tooManyDigits
  | .tooDeep => ¬setting.Admits v ∧ v.Obstructed Toml.maxDisplayRoom .tooDeep
  | _ => False

theorem not_defeats {setting : Setting} {v : Value}
    (hsmall : ¬setting.Defeats v .integerTooLarge)
    (hshown : ¬setting.Admits v → ∀ fault, ¬v.Obstructed Toml.maxDisplayRoom fault)
    (failure : SettingsFailure) : ¬setting.Defeats v failure := by
  rcases failure with e | _ | (_ | digits) | _
  · exact id
  · exact hsmall
  · exact fun hdefeats => hshown hdefeats.1 .tooManyDigits hdefeats.2
  · exact id
  · exact fun hdefeats => hshown hdefeats.1 .tooDeep hdefeats.2

theorem not_defeats_tooLarge (setting : Setting) (h : setting ≠ .flightTime) (v : Value) :
    ¬setting.Defeats v .integerTooLarge :=
  fun hdefeats => h hdefeats.1

end Setting

namespace Settings

variable {α : Type} {Good : α → Prop}

theorem answers_offending {setting : Setting} {v : Value} (error : String → SettingsError)
    (hwrong : ¬setting.Admits v) (hsmall : ¬setting.Defeats v .integerTooLarge) :
    Answers Good (¬setting.Admits v) (setting.Defeats v) (offending error v) := by
  have hshows := v.shown_shows
  rw [offending]
  cases hv : v.shown with
  | ok text =>
      rw [hv] at hshows
      exact ⟨hwrong, Setting.not_defeats hsmall fun _ => hshows⟩
  | error fault =>
      rw [hv] at hshows
      cases fault with
      | tooManyDigits => exact ⟨hwrong, hshows⟩
      | tooDeep => exact ⟨hwrong, hshows⟩

theorem answers_admitted {setting : Setting} {v : Value} {a : α} (hgood : Good a)
    (hright : setting.Admits v) (hsmall : ¬setting.Defeats v .integerTooLarge) :
    Answers Good (¬setting.Admits v) (setting.Defeats v) (.ok a) :=
  ⟨hgood, not_not_intro hright, Setting.not_defeats hsmall fun hwrong => absurd hright hwrong⟩

theorem leastInfinite_pos : 0 < Double.leastInfinite := by
  decide +kernel

/-- A flight time that doubles do not reach. -/
theorem flightTimeOf_of_le {n : Nat} (h : Double.leastInfinite ≤ n) :
    flightTimeOf (.int n) = .error .integerTooLarge := by
  have hpos := leastInfinite_pos
  rw [flightTimeOf, if_neg (by omega), Int.toNat_natCast]
  exact if_pos (Double.isInf_ofNat h)

theorem flightTimeOf_of_lt {n : Nat} (hpos : 0 < n) (h : n < Double.leastInfinite) :
    flightTimeOf (.int n) = .ok (Float.ofNat n) := by
  have hfinite := (Double.ofNat_pos_and_isFinite hpos h).2
  rw [flightTimeOf, if_neg (by omega), Int.toNat_natCast]
  exact if_neg (ne_true_of_eq_false (Double.not_isInf_of_isFinite hfinite))

theorem answers_flightTimeOf (v : Value) :
    Answers IsDuration (¬Setting.flightTime.Admits v) (Setting.flightTime.Defeats v)
      (flightTimeOf v) := by
  have hsmall : (∀ n, v ≠ .int n) → ¬Setting.flightTime.Defeats v .integerTooLarge := by
    rintro hv ⟨-, n, hn, -⟩
    exact hv n hn
  cases v with
  | int n =>
      by_cases hn : n ≤ 0
      · rw [flightTimeOf, if_pos hn]
        refine answers_offending _ (Int.not_lt.2 hn) ?_
        rintro ⟨-, m, hm, hlarge⟩
        cases hm
        have hpos := leastInfinite_pos
        omega
      · obtain ⟨m, rfl⟩ : ∃ m : Nat, n = m := ⟨n.toNat, by omega⟩
        by_cases hlarge : Double.leastInfinite ≤ m
        · rw [flightTimeOf_of_le hlarge]
          exact ⟨rfl, m, rfl, by omega⟩
        · -- the double that the number is rounded to is positive and finite like itself
          rw [flightTimeOf_of_lt (by omega) (Nat.lt_of_not_le hlarge)]
          refine answers_admitted (Double.ofNat_pos_and_isFinite (by omega) (by omega))
            (Int.not_le.1 hn) ?_
          rintro ⟨-, k, hk, hkLarge⟩
          cases hk
          omega
  | float x =>
      rw [flightTimeOf]
      by_cases hx : 0 < x ∧ x.isFinite = true
      · rw [if_pos hx]
        exact answers_admitted hx hx (hsmall (by simp))
      · rw [if_neg hx]
        exact answers_offending _ hx (hsmall (by simp))
  | _ => exact answers_offending _ id (hsmall (by simp))

theorem answers_samplesOf (v : Value) :
    Answers (1 ≤ ·) (¬Setting.samples.Admits v) (Setting.samples.Defeats v) (samplesOf v) := by
  have hsmall : ¬Setting.samples.Defeats v .integerTooLarge :=
    Setting.not_defeats_tooLarge _ (by decide) v
  cases v with
  | int n =>
      rw [samplesOf]
      by_cases hn : n < 1
      · rw [if_pos hn]
        exact answers_offending _ (Int.not_le.2 hn) hsmall
      · rw [if_neg hn]
        exact answers_admitted (by omega) (Int.not_lt.1 hn) hsmall
  | _ => exact answers_offending _ id hsmall

theorem answers_precisionOf (v : Value) :
    Answers (· ≤ maxPrecision) (¬Setting.precision.Admits v) (Setting.precision.Defeats v)
      (precisionOf v) := by
  have hsmall : ¬Setting.precision.Defeats v .integerTooLarge :=
    Setting.not_defeats_tooLarge _ (by decide) v
  cases v with
  | int n =>
      rw [precisionOf]
      by_cases hn : n < 0 ∨ maxPrecision < n
      · rw [if_pos hn]
        refine answers_offending _ ?_ hsmall
        rintro ⟨hlow, hhigh⟩
        omega
      · rw [if_neg hn]
        exact answers_admitted (by omega) ⟨by omega, by omega⟩ hsmall
  | _ => exact answers_offending _ id hsmall

end Settings

/-! Tables -/

namespace Setting

/-- Whether a table gives a setting a value that it may not have. -/
def WrongIn (setting : Setting) (table : Toml.Table) : Prop :=
  ∃ v, table.lookup setting.key = some v ∧ ¬setting.Admits v

/-- Whether there is no verdict on the value that a table gives a setting. -/
def DefeatedIn (setting : Setting) (table : Toml.Table) (failure : SettingsFailure) : Prop :=
  ∃ v, table.lookup setting.key = some v ∧ setting.Defeats v failure

theorem exists_iff {p : Setting → Prop} :
    (∃ setting, p setting) ↔ p .flightTime ∨ p .samples ∨ p .precision := by
  constructor
  · rintro ⟨_ | _ | _, h⟩
    · exact .inl h
    · exact .inr (.inl h)
    · exact .inr (.inr h)
  · rintro (h | h | h) <;> exact ⟨_, h⟩

end Setting

namespace Settings

/-- What is promised of settings. -/
structure Valid (s : Settings) : Prop where
  flightTime : IsDuration s.flightTime
  samples : 1 ≤ s.samples
  precision : s.precision ≤ maxPrecision

theorem defaults_valid : defaults.Valid := by
  refine ⟨⟨?_, ?_⟩, by decide, by decide⟩ <;> decide +kernel

variable {α : Type} {Good : α → Prop}

theorem answers_setting {setting : Setting} (table : Toml.Table)
    {read : Value → Except SettingsFailure α} {otherwise : α} (hdefault : Good otherwise)
    (hread : ∀ v, Answers Good (¬setting.Admits v) (setting.Defeats v) (read v)) :
    Answers Good (setting.WrongIn table) (setting.DefeatedIn table)
      (Settings.setting table setting.key read otherwise) := by
  rw [Settings.setting]
  cases hv : table.lookup setting.key with
  | none =>
      refine ⟨hdefault, ?_, ?_⟩
      · rintro ⟨v, hlookup, -⟩
        rw [hv] at hlookup
        cases hlookup
      · rintro failure ⟨v, hlookup, -⟩
        rw [hv] at hlookup
        cases hlookup
  | some v =>
      refine (hread v).congr ?_ fun failure => ?_
      · simp [Setting.WrongIn, hv]
      · simp [Setting.DefeatedIn, hv]

/-- The first setting that there is no verdict on decides, if those before it are right. -/
def TableDefeats (table : Toml.Table) (failure : SettingsFailure) : Prop :=
  ∃ setting : Setting,
    (∀ other ∈ setting.earlier, ¬other.WrongIn table) ∧ setting.DefeatedIn table failure

theorem answers_ofTable (table : Toml.Table) :
    Answers Valid (∃ setting : Setting, setting.WrongIn table) (TableDefeats table)
      (ofTable table) := by
  have hflightTime := answers_setting table defaults_valid.flightTime answers_flightTimeOf
  have hsamples := answers_setting table defaults_valid.samples answers_samplesOf
  have hprecision : Answers (· ≤ maxPrecision) _ _ _ :=
    answers_setting table defaults_valid.precision answers_precisionOf
  have hdone : ∀ {flightTime samples precision}, IsDuration flightTime → 1 ≤ samples →
      precision ≤ maxPrecision → Answers Valid False (fun _ => False)
        (.ok { flightTime, samples, precision }) :=
    fun hft hs hp => ⟨⟨hft, hs, hp⟩, id, fun _ => id⟩
  have hall := hflightTime.bind fun _ hft => hsamples.bind fun _ hs =>
    hprecision.bind fun _ hp => hdone hft hs hp
  refine hall.congr ?_ fun failure => ?_
  · rw [Setting.exists_iff, or_false]
  · rw [TableDefeats, Setting.exists_iff]
    simp only [Setting.earlier, List.forall_mem_cons, List.not_mem_nil, false_imp_iff,
      implies_true, true_and, and_false, or_false, and_or_left, and_assoc]

/-! The environment -/

theorem ofDigits_lt {ds : List Char} (h : ∀ c ∈ ds, c.isDigit = true) :
    Decimal.ofDigits ds < 10 ^ ds.length := by
  induction ds using List.reverseRecOn with
  | nil => decide
  | append_singleton ds c ih =>
      have hfirst := ih fun d hd => h d (List.mem_append_left _ hd)
      have hc := Char.isDigit_iff_toNat.1 (h c (by simp))
      have hlast : Decimal.digitValue c ≤ 9 := Nat.sub_le_of_le_add hc.2
      have hstep : Decimal.ofDigits (ds ++ [c]) =
          10 * Decimal.ofDigits ds + Decimal.digitValue c := by
        simp [Decimal.ofDigits]
      rw [hstep, List.length_append, List.length_singleton, Nat.pow_succ]
      omega

/-- A whole number that is read is not too long to be shown. -/
theorem natAbs_lt_of_int? {text : List Char} {n : Int} (h : Numeral.int? text = some n) :
    n.natAbs < 10 ^ Numeral.maxDigits := by
  obtain ⟨joined, -, h⟩ := Option.bind_eq_some_iff.1 h
  cases hsplit : Numeral.splitSign joined with
  | mk negative body =>
      simp only [hsplit] at h
      split at h
      · cases h
      · rename_i hbody
        simp only [Bool.or_eq_true, Bool.not_eq_true', decide_eq_true_eq, not_or,
          Bool.not_eq_false, List.all_eq_true] at hbody
        have hlt : Decimal.ofDigits body < 10 ^ Numeral.maxDigits :=
          (ofDigits_lt hbody.1.2).trans_le
            (Nat.pow_le_pow_right (by decide) (Nat.not_lt.1 hbody.2))
        cases h
        cases negative
        · exact hlt
        · rw [if_pos rfl, Int.natAbs_neg]
          exact hlt

end Settings

namespace Setting

/-- The variable that sets a setting. -/
def variableName? : Setting → Option String
  | .flightTime => some flightTimeVariable
  | .samples => some samplesVariable
  | .precision => none

/-- What the text of a variable sets a setting to, if it can be read. -/
def ofText? : Setting → List Char → Option Value
  | .flightTime, text => (Numeral.float? text).map .float
  | .samples, text => (Numeral.int? text).map .int
  | .precision, _ => none

/-- Whether a variable sets a setting to what cannot be read, or to a value that it may not have. -/
def WrongUnder (setting : Setting) (environment : Settings.Environment) : Prop :=
  ∃ name text, setting.variableName? = some name ∧ Settings.textOf? environment name = some text ∧
    ∀ v, setting.ofText? text = some v → ¬setting.Admits v

/-- There is a verdict on everything that a variable can set a setting to. -/
theorem not_defeats_of_ofText? {setting : Setting} {text : List Char} {v : Value}
    (h : setting.ofText? text = some v) (failure : SettingsFailure) :
    ¬setting.Defeats v failure := by
  have hshown : (∀ fault, ¬v.Obstructed Toml.maxDisplayRoom fault) ∧
      ¬setting.Defeats v .integerTooLarge := by
    cases setting with
    | flightTime =>
        obtain ⟨x, -, rfl⟩ := Option.map_eq_some_iff.1 h
        refine ⟨(Value.float x).shown_shows, ?_⟩
        rintro ⟨-, n, hn, -⟩
        cases hn
    | samples =>
        obtain ⟨n, hn, rfl⟩ := Option.map_eq_some_iff.1 h
        obtain ⟨cs, hcs⟩ := Value.intChars_of_lt (Settings.natAbs_lt_of_int? hn)
        have hshows := (Value.int n).shown_shows
        have hchars : (Value.int n).shown = (Toml.intChars n).map String.ofList := rfl
        rw [hchars, hcs] at hshows
        exact ⟨hshows, not_defeats_tooLarge _ (by decide) _⟩
    | precision => cases h
  exact not_defeats hshown.2 (fun _ => hshown.1) failure

end Setting

namespace Settings

variable {α : Type} {Good : α → Prop}

theorem answers_override (setting : Setting) {name : String} (environment : Environment)
    (error : String → SettingsError) {check : Value → Except SettingsFailure α} {otherwise : α}
    (hname : setting.variableName? = some name) (hdefault : Good otherwise)
    (hcheck : ∀ v, Answers Good (¬setting.Admits v) (setting.Defeats v) (check v)) :
    Answers Good (setting.WrongUnder environment) (fun _ => False)
      (override environment name setting.ofText? error check otherwise) := by
  have hwrong : setting.WrongUnder environment ↔ ∃ text, textOf? environment name = some text ∧
      ∀ v, setting.ofText? text = some v → ¬setting.Admits v := by
    simp [Setting.WrongUnder, hname]
  cases htext : textOf? environment name with
  | none =>
      simp only [override, htext]
      refine ⟨hdefault, ?_, fun _ => id⟩
      rw [hwrong, htext]
      rintro ⟨text, htext, -⟩
      cases htext
  | some text =>
      cases hv : setting.ofText? text with
      | none =>
          simp only [override, htext, hv]
          refine ⟨hwrong.2 ⟨text, htext, ?_⟩, fun _ => id⟩
          rw [hv]
          nofun
      | some v =>
          simp only [override, htext, hv]
          refine (hcheck v).congr ?_ fun failure => ?_
          · simp [hwrong, htext, hv]
          · simp [Setting.not_defeats_of_ofText? hv failure]

theorem answers_overridden (environment : Environment) {s : Settings} (h : s.Valid) :
    Answers Valid (∃ setting : Setting, setting.WrongUnder environment) (fun _ => False)
      (overridden environment s) := by
  have hflightTime := answers_override .flightTime environment .flightTimeText rfl h.flightTime
    answers_flightTimeOf
  have hsamples := answers_override .samples environment .samplesText rfl h.samples
    answers_samplesOf
  have hdone : ∀ {flightTime samples}, IsDuration flightTime → 1 ≤ samples →
      Answers Valid False (fun _ => False) (.ok { s with flightTime, samples }) :=
    fun hft hs => ⟨⟨hft, hs, h.precision⟩, id, fun _ => id⟩
  have hall := hflightTime.bind fun _ hft => hsamples.bind fun _ hs => hdone hft hs
  refine hall.congr ?_ fun failure => by simp
  have hprecision : ¬Setting.precision.WrongUnder environment := by
    rintro ⟨name, text, hname, -⟩
    cases hname
  rw [Setting.exists_iff, or_false, or_iff_left hprecision]

/-- The settings of a table under the environment. -/
theorem answers_layered (table : Toml.Table) (environment : Environment) :
    Answers Valid
      ((∃ setting : Setting, setting.WrongIn table) ∨
        ∃ setting : Setting, setting.WrongUnder environment)
      (TableDefeats table) (layered table environment) := by
  refine ((answers_ofTable table).bind fun s hs => answers_overridden environment hs).congr
    Iff.rfl fun failure => ?_
  rw [and_false, or_false]

/-! Documents -/

/-- What keeps a document from being read to its end. -/
inductive DocumentDefeats (folder : Folder) (path : Option String) : SettingsFailure → Prop
  | longInteger {content : ByteArray} {text : String} {digits : Nat}
      (file : folder.find? (FolderPath.ofText (path.getD settingsFile)) = some (.file content))
      (decoded : String.fromUTF8? content = some text)
      (fault : Toml.parse (unifyLineEnds text.toList) = .error (.longInteger digits))
      (long : Numeral.maxDigits < digits) :
      DocumentDefeats folder path (.tooManyDigits (some digits))
  | tooDeep {content : ByteArray} {text : String}
      (file : folder.find? (FolderPath.ofText (path.getD settingsFile)) = some (.file content))
      (decoded : String.fromUTF8? content = some text)
      (fault : Toml.parse (unifyLineEnds text.toList) = .error .tooDeep) :
      DocumentDefeats folder path .tooDeep

theorem readTable_error {folder : Folder} {path : Option String} {failure : SettingsFailure}
    (h : readTable folder path = .error failure) :
    (∃ e, failure = .invalid e) ∨ DocumentDefeats folder path failure := by
  unfold readTable at h
  dsimp only at h
  split at h
  · rename_i node _ hfile
    unfold tableOf at h
    split at h
    · cases h
      exact .inl ⟨_, rfl⟩
    · split at h
      · cases h
        exact .inl ⟨_, rfl⟩
      · rename_i text htext
        split at h
        · cases h
          exact .inl ⟨_, rfl⟩
        · rename_i digits hparse
          cases h
          exact .inr (.longInteger hfile htext hparse (Toml.limited_parse _ _ hparse))
        · rename_i hparse
          cases h
          exact .inr (.tooDeep hfile htext hparse)
        · split at h
          · cases h
          · cases h
          · cases h
            exact .inl ⟨_, rfl⟩
  · cases h
  · cases h
    exact .inl ⟨_, rfl⟩

theorem readTable_of_defeats {folder : Folder} {path : Option String} {failure : SettingsFailure}
    (h : DocumentDefeats folder path failure) : readTable folder path = .error failure := by
  cases h with
  | longInteger hfile hdecoded hfault hlong =>
      simp only [readTable, hfile, tableOf, hdecoded, hfault]
  | tooDeep hfile hdecoded hfault => simp only [readTable, hfile, tableOf, hdecoded, hfault]

/-- What is wrong with the settings: there is no table to read, or a value is wrong in it or in the
environment. -/
inductive Wrong (folder : Folder) (path : Option String) (environment : Environment) : Prop
  | document {e : SettingsError} (h : readTable folder path = .error (.invalid e))
  | value {table : Toml.Table} {setting : Setting} (h : readTable folder path = .ok table)
      (wrong : setting.WrongIn table)
  | overridden {table : Toml.Table} {setting : Setting} (h : readTable folder path = .ok table)
      (wrong : setting.WrongUnder environment)

/-- What keeps loading from a verdict. It lies in the document, never in the environment. -/
inductive Defeats (folder : Folder) (path : Option String) (failure : SettingsFailure) : Prop
  | document (h : DocumentDefeats folder path failure)
  | table {table : Toml.Table} (h : readTable folder path = .ok table)
      (defeats : TableDefeats table failure)

/-- What comes of loading settings: valid ones, or an error if and only if something is wrong,
unless a number or the nesting of a value in the document is more than can be handled. -/
theorem load_answers (folder : Folder) (path : Option String) (environment : Environment) :
    Answers Valid (Wrong folder path environment) (Defeats folder path)
      (load folder path environment).outcome := by
  rw [load]
  cases hread : readTable folder path with
  | ok table =>
      refine (answers_layered table environment).congr ⟨?_, ?_⟩ fun failure => ⟨.table hread, ?_⟩
      · rintro (⟨setting, hwrong⟩ | ⟨setting, hwrong⟩)
        · exact .value hread hwrong
        · exact .overridden hread hwrong
      · rintro (h | ⟨h, hwrong⟩ | ⟨h, hwrong⟩)
        · rw [hread] at h
          cases h
        · rw [hread] at h
          cases h
          exact .inl ⟨_, hwrong⟩
        · exact .inr ⟨_, hwrong⟩
      · rintro (h | ⟨h, hdefeats⟩)
        · rw [readTable_of_defeats h] at hread
          cases hread
        · rw [hread] at h
          cases h
          exact hdefeats
  | error failure =>
      dsimp only
      cases failure with
      | invalid e =>
          refine ⟨.document hread, ?_⟩
          rintro failure (h | ⟨h, -⟩)
          · rw [readTable_of_defeats h] at hread
            cases hread
            cases h
          · rw [hread] at h
            cases h
      | integerTooLarge => exact .document ((readTable_error hread).resolve_left nofun)
      | tooManyDigits digits => exact .document ((readTable_error hread).resolve_left nofun)
      | tooDeep => exact .document ((readTable_error hread).resolve_left nofun)

/-! A flight time that no double comes near -/

/-- A working folder with a document. -/
def folderOf (document : List Char) : Folder :=
  { files := [(FolderPath.ofText settingsFile, (String.ofList document).toUTF8)] }

theorem fromUTF8?_toUTF8 (text : String) : String.fromUTF8? text.toUTF8 = some text := by
  unfold String.fromUTF8?
  exact dif_pos text.isValidUTF8

theorem readTable_folderOf {document : List Char} {root table : Toml.Table}
    (hparse : Toml.parse (unifyLineEnds document) = .ok root)
    (htable : root.lookup settingsTable = some (.table table)) :
    readTable (folderOf document) none = .ok table := by
  have hfile : (folderOf document).find? (FolderPath.ofText settingsFile) =
      some (.file (String.ofList document).toUTF8) := by
    simp [folderOf, Folder.find?, Folder.listed?, FolderPath.sameAs]
  simp only [readTable, Option.getD_none, hfile, tableOf, fromUTF8?_toUTF8,
    String.toList_ofList, hparse, htable]

/-- A document that sets the flight time to `10 ^ 309`. -/
def farDocument : List Char :=
  "[curvefire]\nflight_time = 1".toList ++ Decimal.zeros 309 ++ ['\n']

/-- The settings table of a document, with the flight time there if it is an integer. -/
def flightTimeIn? (root : Toml.Table) : Option (Toml.Table × Int) :=
  match root.lookup settingsTable with
  | some (.table table) =>
      match table.lookup flightTimeKey with
      | some (.int n) => some (table, n)
      | _ => none
  | _ => none

theorem flightTimeIn?_farDocument :
    ((Toml.parse (unifyLineEnds farDocument)).toOption.bind flightTimeIn?).map (·.2) =
      some ((10 ^ 309 : Nat) : Int) := by
  decide +kernel

theorem readTable_of_flightTimeIn? {document : List Char} {table : Toml.Table} {n : Int}
    (h : (Toml.parse (unifyLineEnds document)).toOption.bind flightTimeIn? = some (table, n)) :
    readTable (folderOf document) none = .ok table ∧
      table.lookup flightTimeKey = some (.int n) := by
  obtain ⟨root, hparse, hroot⟩ := Option.bind_eq_some_iff.1 h
  unfold flightTimeIn? at hroot
  split at hroot
  · rename_i htable
    split at hroot
    · rename_i hlookup
      cases hroot
      refine ⟨readTable_folderOf ?_ htable, hlookup⟩
      cases hresult : Toml.parse (unifyLineEnds document) with
      | error fault =>
          rw [hresult] at hparse
          cases hparse
      | ok t =>
          rw [hresult] at hparse
          cases hparse
          rfl
    · cases hroot
  · cases hroot

theorem readTable_farDocument : ∃ table, readTable (folderOf farDocument) none = .ok table ∧
    table.lookup flightTimeKey = some (.int (10 ^ 309 : Nat)) := by
  obtain ⟨⟨table, n⟩, hroot, rfl⟩ := Option.map_eq_some_iff.1 flightTimeIn?_farDocument
  exact ⟨table, readTable_of_flightTimeIn? hroot⟩

/-- A positive flight time may be too large a number for a verdict. -/
theorem load_farDocument : ∃ table, readTable (folderOf farDocument) none = .ok table ∧
    (load (folderOf farDocument) none []).outcome = .error .integerTooLarge := by
  obtain ⟨table, hread, hlookup⟩ := readTable_farDocument
  have hflightTime : setting table flightTimeKey flightTimeOf defaults.flightTime =
      .error .integerTooLarge := by
    rw [setting, hlookup]
    exact flightTimeOf_of_le (by decide +kernel)
  refine ⟨table, hread, ?_⟩
  rw [load, hread]
  dsimp only
  rw [layered, ofTable, hflightTime]
  rfl

end Settings

end FlightCurve
