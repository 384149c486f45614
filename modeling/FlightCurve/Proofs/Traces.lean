import FlightCurve.Proofs.Arrays

/-!
One sample of an evaluation over an array. A traced value is computed like a single value and keeps
what matters over an array: whether every sample has a value of its own, and whether the powers
whose exponents vary came out here as they do for a single exponent. Where they did, the array holds
the single value at the index of the sample.
-/

namespace FlightCurve

/-- A value at one parameter, and how it was computed. -/
structure Traced where
  value : Float
  varies : Bool
  uniform : Prop

namespace Traced

def constant (value : Float) : Traced := ⟨value, false, True⟩

def parameter (t : Float) : Traced := ⟨t, true, True⟩

def map (f : Float → Float) (a : Traced) : Traced := ⟨f a.value, a.varies, a.uniform⟩

def zip (f : Float → Float → Float) (a b : Traced) : Traced :=
  ⟨f a.value b.value, a.varies || b.varies, a.uniform ∧ b.uniform⟩

/-- Where the exponent varies, the operation for varied exponents has to give the same power. -/
def pow (a b : Traced) : Traced :=
  ⟨Double.pow a.value b.value, a.varies || b.varies, a.uniform ∧ b.uniform ∧
    (b.varies = true →
      ElementArithmetic.double.variedPow a.value b.value = Double.pow a.value b.value)⟩

end Traced

def Arithmetic.traced : Arithmetic Traced where
  zero := .constant double.zero
  one := .constant double.one
  literal x := .constant (double.literal x)
  add := .zip double.add
  sub := .zip double.sub
  mul := .zip double.mul
  div := .zip double.div
  quotient := .zip double.quotient
  remainder := .zip double.remainder
  pow := .pow
  neg := .map double.neg
  unary fn := .map (double.unary fn)
  binary fn := .zip (double.binary fn)

/-- What is traced is the single value. -/
theorem Arithmetic.traced_related : traced.Related (fun e a => e.value = a) double where
  zero := rfl
  one := rfl
  literal _ := rfl
  additive op := by
    rintro a b _ _ rfl rfl
    cases op <;> rfl
  multiplicative op := by
    rintro a b _ _ rfl rfl
    cases op <;> rfl
  pow := by
    rintro a b _ _ rfl rfl
    rfl
  neg := by
    rintro a _ rfl
    rfl
  unary fn := by
    rintro a _ rfl
    rfl
  binary fn := by
    rintro a b _ _ rfl rfl
    rfl

/-! One index of an array -/

namespace Sampled

variable {β γ δ : Type}

/-- Over `n` samples the value has `b` at the index `i`, in any case if it does not vary and else if
`uniform` holds. -/
def Shows (n i : Nat) (value : Sampled β) (b : β) (varies : Bool) (uniform : Prop) : Prop :=
  match value with
  | .constant a => varies = false ∧ a = b
  | .varying grid => varies = true ∧ ∃ values : List β,
      grid = .axis (values.map .cell) ∧ values.length = n ∧ (uniform → values[i]? = some b)

theorem map_cells (f : β → γ) (values : List β) :
    (Grid.axis (values.map .cell)).map f = .axis ((values.map f).map .cell) := by
  rw [Grid.map_axis, List.map_map, List.map_map]
  rfl

theorem zip_cells (f : β → γ → δ) (values : List β) (others : List γ) :
    (Grid.axis (values.map .cell)).zip f (.axis (others.map .cell)) =
      .axis ((List.zipWith f values others).map .cell) := by
  rw [Grid.zip_axis, List.zipWith_map, List.map_zipWith]
  rfl

variable {n i : Nat} {v : Sampled β} {v' : Sampled γ} {b : β} {c : γ} {w w' : Bool} {p p' : Prop}

theorem Shows.map (h : v.Shows n i b w p) (f : β → γ) : (v.map f).Shows n i (f b) w p := by
  cases v with
  | constant a => exact ⟨h.1, congrArg f h.2⟩
  | varying grid =>
      obtain ⟨hw, values, rfl, hlength, hget⟩ := h
      refine ⟨hw, values.map f, map_cells f values, by rw [List.length_map, hlength], fun hp => ?_⟩
      rw [List.getElem?_map, hget hp, Option.map_some]

theorem Shows.zip (h : v.Shows n i b w p) (h' : v'.Shows n i c w' p') (f : β → γ → δ) :
    (Sampled.zip f v v').Shows n i (f b c) (w || w') (p ∧ p') := by
  cases v with
  | constant a =>
      obtain ⟨rfl, rfl⟩ := h
      cases v' with
      | constant a' => exact ⟨h'.1, congrArg (f a) h'.2⟩
      | varying grid =>
          obtain ⟨rfl, values, rfl, hlength, hget⟩ := h'
          refine ⟨rfl, values.map (f a), map_cells _ values, by rw [List.length_map, hlength], ?_⟩
          rintro ⟨-, hp'⟩
          rw [List.getElem?_map, hget hp', Option.map_some]
  | varying grid =>
      obtain ⟨rfl, values, rfl, hlength, hget⟩ := h
      cases v' with
      | constant a' =>
          obtain ⟨rfl, rfl⟩ := h'
          have hlength' : (values.map (f · a')).length = n := by rw [List.length_map, hlength]
          refine ⟨rfl, values.map (f · a'), map_cells _ values, hlength', ?_⟩
          rintro ⟨hp, -⟩
          rw [List.getElem?_map, hget hp, Option.map_some]
      | varying other =>
          obtain ⟨rfl, others, rfl, hlength', hget'⟩ := h'
          refine ⟨rfl, List.zipWith f values others, zip_cells f values others, ?_, ?_⟩
          · rw [List.length_zipWith, hlength, hlength', Nat.min_self]
          · rintro ⟨hp, hp'⟩
            rw [List.getElem?_zipWith, hget hp, hget' hp']

theorem Shows.weaken (h : v.Shows n i b w p) (hw : w = w') (hp : p' → p) :
    v.Shows n i b w' p' := by
  subst hw
  cases v with
  | constant a => exact h
  | varying grid =>
      obtain ⟨hw, values, hgrid, hlength, hget⟩ := h
      exact ⟨hw, values, hgrid, hlength, fun h => hget (hp h)⟩

theorem Shows.select {condition : Sampled Bool} {x y : Sampled β} {choose : Bool} {a b : β}
    {w₀ : Bool} {p₀ : Prop} (hcondition : condition.Shows n i choose w₀ p₀)
    (hx : x.Shows n i a w p) (hy : y.Shows n i b w' p') :
    (Sampled.select condition x y).Shows n i (cond choose a b) (w₀ || (w || w'))
      (p₀ ∧ p ∧ p') :=
  hcondition.zip (hx.zip hy Prod.mk) fun choose values => cond choose values.1 values.2

theorem Shows.isVaried (h : v.Shows n i b w p) : v.isVaried = w := by
  cases v with
  | constant a => exact h.1.symm
  | varying grid =>
      obtain ⟨rfl, values, rfl, -⟩ := h
      rfl

/-- A value that varies needs to be right only where all is uniform. -/
theorem Shows.of_varies {b' : β} (h : v.Shows n i b true p) (hsame : p' → p ∧ b = b') :
    v.Shows n i b' true p' := by
  cases v with
  | constant a => cases h.1
  | varying grid =>
      obtain ⟨-, values, hgrid, hlength, hget⟩ := h
      refine ⟨rfl, values, hgrid, hlength, fun hp' => ?_⟩
      obtain ⟨hp, rfl⟩ := hsame hp'
      exact hget hp

/-- The values of all samples. -/
theorem Shows.spread {ts : List γ} (h : v.Shows ts.length i b w p) (hi : i < ts.length) :
    ∃ values : List β, v.spread (.axis (ts.map .cell)) = .axis (values.map .cell) ∧
      values.length = ts.length ∧ (p → values[i]? = some b) := by
  cases v with
  | constant a =>
      obtain ⟨-, rfl⟩ := h
      refine ⟨ts.map fun _ => a, map_cells _ ts, List.length_map .., fun _ => ?_⟩
      rw [List.getElem?_map, List.getElem?_eq_getElem hi, Option.map_some]
  | varying grid =>
      obtain ⟨-, values, rfl, hlength, hget⟩ := h
      exact ⟨values, rfl, hlength, hget⟩

end Sampled

/-! Operations on arrays -/

namespace Arithmetic

variable {n i : Nat} {v v' : Sampled Float} {e e' : Traced}

/-- The array holds the traced value at the index. -/
def Tells (n i : Nat) (v : Sampled Float) (e : Traced) : Prop :=
  v.Shows n i e.value e.varies e.uniform

theorem tells_quotient (h : Tells n i v e) (h' : Tells n i v' e') :
    Tells n i ((sampled .double).quotient v v') (traced.quotient e e') := by
  have hq := (Sampled.Shows.zip h h' Division.double.div).map Division.double.trunc
  have hone : (Sampled.constant Division.double.one).Shows n i Division.double.one false True :=
    ⟨rfl, rfl⟩
  have hquotient := ((Sampled.Shows.zip h h' Division.double.fmod).map
    Division.double.isNegative).select ((Sampled.Shows.map h' Division.double.isPositive).select
      (hq.zip hone Division.double.sub) (hq.zip hone Division.double.add)) hq
  change Sampled.Shows n i _ _ (e.varies || e'.varies) (e.uniform ∧ e'.uniform)
  refine hquotient.weaken ?_ fun ⟨hp, hp'⟩ => ?_
  · cases e.varies <;> cases e'.varies <;> rfl
  · simp [hp, hp']

theorem tells_remainder (h : Tells n i v e) (h' : Tells n i v' e') :
    Tells n i ((sampled .double).remainder v v') (traced.remainder e e') := by
  have hr := Sampled.Shows.zip h h' Division.double.fmod
  have hremainder := (hr.map Division.double.isNegative).select
    (hr.zip (Sampled.Shows.map h' Division.double.abs) Division.double.add) hr
  change Sampled.Shows n i _ _ (e.varies || e'.varies) (e.uniform ∧ e'.uniform)
  refine hremainder.weaken ?_ fun ⟨hp, hp'⟩ => ?_
  · cases e.varies <;> cases e'.varies <;> rfl
  · simp [hp, hp']

/-- With a common exponent the power is that of single values. With varied ones it is as far as they
are uniform. -/
theorem tells_pow (h : Tells n i v e) (h' : Tells n i v' e') :
    Tells n i ((sampled .double).pow v v') (traced.pow e e') := by
  have hvaried := Sampled.Shows.isVaried h'
  change Tells n i (Sampled.pow .double v v') (e.pow e')
  rw [Sampled.pow, hvaried]
  cases hw : e'.varies with
  | false =>
      have hpow := Sampled.Shows.zip h h' Double.pow
      exact hpow.weaken rfl fun huniform => ⟨huniform.1, huniform.2.1⟩
  | true =>
      have hpow := Sampled.Shows.zip h h' ElementArithmetic.double.variedPow
      have heither : (e.varies || e'.varies) = true := by rw [hw, Bool.or_true]
      rw [heither] at hpow
      change Sampled.Shows n i _ _ (e.varies || e'.varies) _
      rw [heither]
      exact hpow.of_varies fun huniform => ⟨⟨huniform.1, huniform.2.1⟩, huniform.2.2 hw⟩

theorem sampled_traced_related (n i : Nat) : (sampled .double).Related (Tells n i) traced where
  zero := ⟨rfl, rfl⟩
  one := ⟨rfl, rfl⟩
  literal _ := ⟨rfl, rfl⟩
  additive op := by
    intro v v' e e' h h'
    cases op with
    | plus => exact Sampled.Shows.zip h h' double.add
    | minus => exact Sampled.Shows.zip h h' double.sub
  multiplicative op := by
    intro v v' e e' h h'
    cases op with
    | times => exact Sampled.Shows.zip h h' double.mul
    | divide => exact Sampled.Shows.zip h h' double.div
    | floorDivide => exact tells_quotient h h'
    | modulo => exact tells_remainder h h'
  pow h h' := tells_pow h h'
  neg h := Sampled.Shows.map h double.neg
  unary fn := fun h => Sampled.Shows.map h (double.unary fn)
  binary fn := fun h h' => Sampled.Shows.zip h h' (double.binary fn)

end Arithmetic

end FlightCurve
