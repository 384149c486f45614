import FlightCurve.Proofs.DistinctKeys
import FlightCurve.Proofs.Sampling
import FlightCurve.Proofs.Settings

/-!
The layers that settings come from. A setting is what its variable says, else what stands at its key
in the table, else its default; nothing but these two decides on it. There are settings exactly if
all that is said can be read and is admitted, also where a variable overrides it. Other keys are
warned of and have no effect.
-/

namespace FlightCurve

open Toml (Value)

/-! What is said of a setting -/

namespace Setting

/-- The value that a table gives a setting is one that it may have, if there is one. -/
def AdmittedIn (setting : Setting) (table : Toml.Table) : Prop :=
  ∀ v, table.lookup setting.key = some v → setting.Admits v

/-- The text of the variable of a setting can be read as a value that it may have, if there is a
text. -/
def AdmittedUnder (setting : Setting) (environment : Settings.Environment) : Prop :=
  ∀ name text, setting.variableName? = some name → Settings.textOf? environment name = some text →
    ∃ v, setting.ofText? text = some v ∧ setting.Admits v

/-- What the environment sets a setting to. -/
def override? (setting : Setting) (environment : Settings.Environment) : Option Value := do
  let name ← setting.variableName?
  let text ← Settings.textOf? environment name
  setting.ofText? text

/-- What is said of a setting: the environment comes before the table. -/
def given? (table : Toml.Table) (environment : Settings.Environment) (setting : Setting) :
    Option Value :=
  (setting.override? environment).or (table.lookup setting.key)

theorem admittedIn_iff {setting : Setting} {table : Toml.Table} :
    setting.AdmittedIn table ↔ ¬setting.WrongIn table := by
  simp only [AdmittedIn, WrongIn, not_exists, not_and, not_not]

theorem admittedUnder_iff {setting : Setting} {environment : Settings.Environment} :
    setting.AdmittedUnder environment ↔ ¬setting.WrongUnder environment := by
  simp only [AdmittedUnder, WrongUnder, not_exists, not_and, not_forall, not_not, exists_prop]

end Setting

namespace Settings

/-- The double that a value stands for. -/
def seconds? : Value → Option Float
  | .int n => some (Float.ofNat n.toNat)
  | .float x => some x
  | _ => none

/-- The number that a value stands for. -/
def number? : Value → Option Nat
  | .int n => some n.toNat
  | _ => none

/-- Settings that are given, with defaults where nothing is. -/
def ofGiven (given? : Setting → Option Value) : Settings where
  flightTime := ((given? .flightTime).bind seconds?).getD defaults.flightTime
  samples := ((given? .samples).bind number?).getD defaults.samples
  precision := ((given? .precision).bind number?).getD defaults.precision

/-- One setting out of all, as a value. -/
def field (s : Settings) : Setting → Value
  | .flightTime => .float s.flightTime
  | .samples => .int s.samples
  | .precision => .int s.precision

/-- A setting depends on nothing but what is said of it. -/
theorem field_ofGiven {given? given?' : Setting → Option Value} {setting : Setting}
    (h : given? setting = given?' setting) :
    (ofGiven given?).field setting = (ofGiven given?').field setting := by
  cases setting <;> simp only [field, ofGiven, h]

/-! What is read -/

section Reading

variable {α : Type} {read : Value → Except SettingsFailure α} {value? : Value → Option α}

theorem offending_ne_ok (error : String → SettingsError) (v : Value) (a : α) :
    offending error v ≠ .ok a := by
  intro h
  rw [offending] at h
  split at h <;> cases h

theorem flightTimeOf_eq_ok {v : Value} {x : Float} (h : flightTimeOf v = .ok x) :
    seconds? v = some x := by
  unfold flightTimeOf at h
  split at h
  · split at h
    · exact absurd h (offending_ne_ok _ _ _)
    · dsimp only at h
      split at h <;> cases h
      rfl
  · split at h
    · cases h
      rfl
    · exact absurd h (offending_ne_ok _ _ _)
  · exact absurd h (offending_ne_ok _ _ _)

theorem samplesOf_eq_ok {v : Value} {n : Nat} (h : samplesOf v = .ok n) : number? v = some n := by
  unfold samplesOf at h
  split at h
  · split at h
    · exact absurd h (offending_ne_ok _ _ _)
    · cases h
      rfl
  · exact absurd h (offending_ne_ok _ _ _)

theorem precisionOf_eq_ok {v : Value} {n : Nat} (h : precisionOf v = .ok n) :
    number? v = some n := by
  unfold precisionOf at h
  split at h
  · split at h
    · exact absurd h (offending_ne_ok _ _ _)
    · cases h
      rfl
  · exact absurd h (offending_ne_ok _ _ _)

variable (hread : ∀ v a, read v = .ok a → value? v = some a)
include hread

theorem setting_eq_ok {table : Toml.Table} {key : String} {otherwise a : α}
    (h : setting table key read otherwise = .ok a) :
    a = ((table.lookup key).bind value?).getD otherwise := by
  unfold setting at h
  split at h
  · rename_i hnone
    cases h
    rw [hnone]
    rfl
  · rename_i v hv
    rw [hv, Option.bind_some, hread v a h]
    rfl

/-- A variable that sets nothing leaves the setting as it is. -/
theorem override_eq_ok {setting : Setting} {environment : Environment} {name : String}
    {error : String → SettingsError} {otherwise a : α} (hname : setting.variableName? = some name)
    (h : override environment name setting.ofText? error read otherwise = .ok a) :
    (setting.override? environment = none ∧ a = otherwise) ∨
      ∃ v, setting.override? environment = some v ∧ value? v = some a := by
  rw [Setting.override?, hname]
  unfold override at h
  split at h
  · rename_i hnone
    cases h
    exact .inl ⟨by simp [hnone], rfl⟩
  · rename_i text htext
    split at h
    · cases h
    · rename_i v hv
      exact .inr ⟨v, by simp [htext, hv], hread v a h⟩

/-- A variable and the key of its setting, one over the other. -/
theorem layers_eq_ok {setting : Setting} {table : Toml.Table} {environment : Environment}
    {name : String} {error : String → SettingsError} {default a b : α}
    (hname : setting.variableName? = some name)
    (htable : Settings.setting table setting.key read default = .ok a)
    (hoverride : override environment name setting.ofText? error read a = .ok b) :
    b = ((setting.given? table environment).bind value?).getD default := by
  rw [Setting.given?]
  rcases override_eq_ok hread hname hoverride with ⟨hnone, rfl⟩ | ⟨v, hv, hb⟩
  · rw [hnone, Option.none_or]
    exact setting_eq_ok hread htable
  · rw [hv, Option.some_or, Option.bind_some, hb, Option.getD_some]

end Reading

/-- What is loaded is what is given. -/
theorem layered_eq_ok {table : Toml.Table} {environment : Environment} {s : Settings}
    (h : layered table environment = .ok s) : s = ofGiven (Setting.given? table environment) := by
  obtain ⟨_, htable, h⟩ := Outcome.bind_eq_ok_iff.1 h
  obtain ⟨_, hseconds, htable⟩ := Outcome.bind_eq_ok_iff.1 htable
  obtain ⟨_, hsamples, htable⟩ := Outcome.bind_eq_ok_iff.1 htable
  obtain ⟨_, hprecision, htable⟩ := Outcome.bind_eq_ok_iff.1 htable
  cases htable
  obtain ⟨seconds, hseconds', h⟩ := Outcome.bind_eq_ok_iff.1 h
  obtain ⟨samples, hsamples', h⟩ := Outcome.bind_eq_ok_iff.1 h
  cases h
  have hname : Setting.flightTime.variableName? = some flightTimeVariable := rfl
  have hname' : Setting.samples.variableName? = some samplesVariable := rfl
  have hflightTime := layers_eq_ok (fun _ _ => flightTimeOf_eq_ok) hname hseconds hseconds'
  have hcount := layers_eq_ok (fun _ _ => samplesOf_eq_ok) hname' hsamples hsamples'
  have hdigits := setting_eq_ok (fun _ _ => precisionOf_eq_ok) hprecision
  rw [hflightTime, hcount, hdigits]
  rfl

/-! Success -/

section Success

variable {α : Type} {Good : α → Prop} {Wrong : Prop} {Unhandled : SettingsFailure → Prop}
  {table : Toml.Table} {environment : Environment}

/-- Where there is a verdict in any case, there is a result exactly if nothing is wrong. -/
theorem exists_ok_iff {r : Except SettingsFailure α} (h : Answers Good Wrong Unhandled r)
    (hhandled : ¬Wrong → ∀ failure, ¬Unhandled failure) : (∃ a, r = .ok a) ↔ ¬Wrong := by
  cases r with
  | ok a => exact iff_of_true ⟨a, rfl⟩ h.2.1
  | error failure =>
      refine iff_of_false nofun fun hright => ?_
      cases failure with
      | invalid e => exact hright h.1
      | _ => exact hhandled hright _ h

/-- An admitted value is shown where it has to be, and a flight time that is small enough is no
obstacle either. -/
theorem not_tableDefeats (hadmitted : ∀ setting : Setting, setting.AdmittedIn table)
    (hfits : ∀ n : Int, table.lookup flightTimeKey = some (.int n) → n < Double.leastInfinite)
    (failure : SettingsFailure) : ¬TableDefeats table failure := by
  rintro ⟨setting, -, v, hv, hdefeats⟩
  refine Setting.not_defeats ?_ (fun hwrong => absurd (hadmitted setting v hv) hwrong) failure
    hdefeats
  rintro ⟨rfl, n, rfl, hlarge⟩
  exact absurd (hfits n hv) (Int.not_lt.2 hlarge)

theorem exists_layered_iff
    (hfits : ∀ n : Int, table.lookup flightTimeKey = some (.int n) → n < Double.leastInfinite) :
    (∃ s, layered table environment = .ok s) ↔
      (∀ setting : Setting, setting.AdmittedIn table) ∧
        ∀ setting : Setting, setting.AdmittedUnder environment := by
  have hright : ¬((∃ setting : Setting, setting.WrongIn table) ∨
      ∃ setting : Setting, setting.WrongUnder environment) ↔
      (∀ setting : Setting, setting.AdmittedIn table) ∧
        ∀ setting : Setting, setting.AdmittedUnder environment := by
    simp only [not_or, not_exists, Setting.admittedIn_iff, Setting.admittedUnder_iff]
  rw [← hright]
  exact exists_ok_iff (answers_layered table environment) fun hnone =>
    not_tableDefeats (hright.1 hnone).1 hfits

/-- Only the keys of settings are looked up. -/
theorem layered_congr {table' : Toml.Table}
    (h : ∀ setting : Setting, table.lookup setting.key = table'.lookup setting.key) :
    layered table environment = layered table' environment := by
  have hflightTime : table.lookup flightTimeKey = table'.lookup flightTimeKey := h .flightTime
  have hsamples : table.lookup samplesKey = table'.lookup samplesKey := h .samples
  have hprecision : table.lookup precisionKey = table'.lookup precisionKey := h .precision
  simp only [layered, ofTable, setting, hflightTime, hsamples, hprecision]

theorem valid_of_layered {s : Settings} (h : layered table environment = .ok s) : s.Valid := by
  have hanswers := answers_layered table environment
  rw [h] at hanswers
  exact hanswers.1

end Success

/-! Warnings -/

/-- What is said of a key that is no setting. -/
def unknownKey (key : String) : LogRecord :=
  ⟨.warning, "Ignoring unknown setting '" ++ key ++ "' in " ++ settingsFile⟩

theorem warnings_eq (table : Toml.Table) : warnings table =
    ((table.map Prod.fst).filter fun key => !isKnownKey key).map unknownKey := by
  rw [List.filter_map, List.map_map]
  rfl

/-- A key stands in the table once, however the document writes it. -/
theorem nodup_of_readTable {folder : Folder} {path : Option String} {table : Toml.Table}
    (h : readTable folder path = .ok table) : (table.map Prod.fst).Nodup := by
  unfold readTable at h
  dsimp only at h
  split at h
  · unfold tableOf at h
    split at h
    · cases h
    · split at h
      · cases h
      · split at h
        · cases h
        · cases h
        · cases h
        · rename_i root hparse
          have hroot := Toml.distinct_parse _ root hparse
          split at h
          · cases h
            exact List.nodup_nil
          · rename_i htable
            cases h
            exact (hroot.lookup htable).keys
          · cases h
  · cases h
    exact List.nodup_nil
  · cases h

/-! Loading -/

theorem load_of_readTable {folder : Folder} {path : Option String} {table : Toml.Table}
    (h : readTable folder path = .ok table) (environment : Environment) :
    load folder path environment = ⟨warnings table, layered table environment⟩ := by
  rw [load, h]

theorem Valid.new?_eq_ok {s : Settings} (h : s.Valid) (curve : Curve) (origin : Point) :
    ∃ f, Trajectory.new? curve origin s.flightTime = .ok f :=
  ⟨_, dif_pos h.flightTime⟩

theorem Valid.sample_ne_count {s : Settings} (h : s.Valid) (curve : Curve) (value : Int) :
    curve.sample s.samples ≠ .error (.count value) := by
  have hcount : (1 : Int) ≤ s.samples := Int.ofNat_le.2 h.samples
  rw [curve.sample_of_ofLength? hcount]
  split
  · rename_i e he
    intro h
    cases h
    exact SamplingError.ofLength?_ne_count he value rfl
  · nofun

theorem override?_congr {setting : Setting} {environment environment' : Environment}
    (h : ∀ name, setting.variableName? = some name →
      environment.lookup name = environment'.lookup name) :
    setting.override? environment = setting.override? environment' := by
  unfold Setting.override?
  cases hname : setting.variableName? with
  | none => rfl
  | some name =>
      have htext : textOf? environment name = textOf? environment' name := by
        rw [textOf?, textOf?, h name hname]
      change (textOf? environment name).bind _ = (textOf? environment' name).bind _
      rw [htext]

/-- Loading the settings of a table in which no flight time is too large for a double. It succeeds
exactly if all that is said of settings is admitted. What is loaded is what is given, serves for a
flight and for samples of any curve, and depends for each setting on its key and its variable.
Further keys have no effect but one warning for each of them, in the order of the table. -/
theorem load_in_layers {folder : Folder} {path : Option String} {table : Toml.Table}
    (environment : Environment) (hread : readTable folder path = .ok table)
    (hfits : ∀ n : Int, table.lookup flightTimeKey = some (.int n) → n < Double.leastInfinite) :
    ((∃ s, (load folder path environment).outcome = .ok s) ↔
      (∀ setting : Setting, setting.AdmittedIn table) ∧
        ∀ setting : Setting, setting.AdmittedUnder environment) ∧
    (∀ s, (load folder path environment).outcome = .ok s →
      s = ofGiven (Setting.given? table environment) ∧
      (∀ (curve : Curve) (origin : Point),
        ∃ f, Trajectory.new? curve origin s.flightTime = .ok f) ∧
      ∀ (curve : Curve) (value : Int), curve.sample s.samples ≠ .error (.count value)) ∧
    (∀ folder' path' environment' table', readTable folder' path' = .ok table' →
      ∀ s s', (load folder path environment).outcome = .ok s →
        (load folder' path' environment').outcome = .ok s' →
        ∀ setting : Setting, table.lookup setting.key = table'.lookup setting.key →
          (∀ name, setting.variableName? = some name →
            environment.lookup name = environment'.lookup name) →
          s.field setting = s'.field setting) ∧
    (∀ folder' path' table', readTable folder' path' = .ok table' →
      (∀ setting : Setting, table.lookup setting.key = table'.lookup setting.key) →
      (load folder path environment).outcome = (load folder' path' environment).outcome) ∧
    (load folder path environment).log =
      ((table.map Prod.fst).filter fun key => !isKnownKey key).map unknownKey ∧
    (table.map Prod.fst).Nodup := by
  rw [load_of_readTable hread environment]
  refine ⟨exists_layered_iff hfits, fun s hs => ?_, ?_, ?_, warnings_eq table,
    nodup_of_readTable hread⟩
  · have hvalid := valid_of_layered hs
    exact ⟨layered_eq_ok hs, hvalid.new?_eq_ok, hvalid.sample_ne_count⟩
  · intro folder' path' environment' table' hread' s s' hs hs' setting hkey hvariable
    rw [load_of_readTable hread' environment'] at hs'
    rw [layered_eq_ok hs, layered_eq_ok hs']
    refine field_ofGiven ?_
    rw [Setting.given?, Setting.given?, hkey, override?_congr hvariable]
  · intro folder' path' table' hread' hkeys
    rw [load_of_readTable hread' environment]
    exact layered_congr hkeys

/-- A document with a flight time and a key that is no setting. -/
def speedDocument : List Char := "[curvefire]\nflight_time = 4\nspeed = 3\n".toList

theorem readTable_speedDocument : ∃ table, readTable (folderOf speedDocument) none = .ok table ∧
    table.lookup flightTimeKey = some (.int 4) ∧ table.map Prod.fst = [flightTimeKey, "speed"] := by
  have hdocument : ((Toml.parse (unifyLineEnds speedDocument)).toOption.bind flightTimeIn?).map
      (fun found => (found.1.map Prod.fst, found.2)) = some ([flightTimeKey, "speed"], 4) := by
    decide +kernel
  obtain ⟨⟨table, n⟩, hfound, hkeys⟩ := Option.map_eq_some_iff.1 hdocument
  obtain ⟨hread, hlookup⟩ := readTable_of_flightTimeIn? hfound
  obtain ⟨hkeys, rfl⟩ := Prod.mk.inj hkeys
  exact ⟨table, hread, hlookup, hkeys⟩

/-- The table gives the flight time, a variable the samples, and the precision is the default. -/
theorem load_in_layers_speed : ∃ table,
    readTable (folderOf speedDocument) none = .ok table ∧
    (∀ n : Int, table.lookup flightTimeKey = some (.int n) → n < Double.leastInfinite) ∧
    (load (folderOf speedDocument) none [(samplesVariable, " 5 ")]).outcome =
      .ok { flightTime := 4, samples := 5 } ∧
    (load (folderOf speedDocument) none [(samplesVariable, " 5 ")]).log = [unknownKey "speed"] := by
  obtain ⟨table, hread, hlookup, hkeys⟩ := readTable_speedDocument
  have hmissing : ∀ key, key ∉ [flightTimeKey, "speed"] → table.lookup key = none := by
    intro key hkey
    rw [← hkeys] at hkey
    refine List.lookup_eq_none_iff.2 fun entry hentry => bne_iff_ne.2 ?_
    rintro rfl
    exact hkey (List.mem_map_of_mem hentry)
  have hsamples : table.lookup samplesKey = none := hmissing _ (by decide)
  have hprecision : table.lookup precisionKey = none := hmissing _ (by decide)
  have hfits : ∀ n : Int, table.lookup flightTimeKey = some (.int n) →
      n < Double.leastInfinite := by
    intro n hn
    cases hlookup.symm.trans hn
    decide +kernel
  have hblank : textOf? [(samplesVariable, " 5 ")] flightTimeVariable = none := by decide +kernel
  have htext : textOf? [(samplesVariable, " 5 ")] samplesVariable = some ['5'] := by
    decide +kernel
  have hfive : Numeral.int? ['5'] = some 5 := by decide +kernel
  obtain ⟨hiff, hresult, -, -, hlog, -⟩ :=
    load_in_layers [(samplesVariable, " 5 ")] hread hfits
  have hexists := hiff.2 ⟨fun setting v hv => ?_, fun setting name text hname h => ?_⟩
  · obtain ⟨s, hs⟩ := hexists
    refine ⟨table, hread, hfits, ?_, ?_⟩
    · rw [hs, (hresult s hs).1]
      refine congrArg Except.ok ?_
      simp [ofGiven, Setting.given?, Setting.override?, Setting.variableName?, hblank, htext,
        Setting.ofText?, hfive, Setting.key, hlookup, hprecision, seconds?, number?, defaults]
      rfl
    · rw [hlog, hkeys]
      decide +kernel
  · cases setting with
    | flightTime =>
        cases hlookup.symm.trans hv
        exact (by decide : (0 : Int) < 4)
    | samples => cases hsamples.symm.trans hv
    | precision => cases hprecision.symm.trans hv
  · cases setting with
    | flightTime =>
        cases hname
        cases hblank.symm.trans h
    | samples =>
        cases hname
        cases htext.symm.trans h
        exact ⟨.int 5, by rw [Setting.ofText?, hfive]; rfl, (by decide : (1 : Int) ≤ 5)⟩
    | precision => cases hname

end Settings

end FlightCurve
