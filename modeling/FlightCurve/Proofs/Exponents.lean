import FlightCurve.Proofs.Arrays

/-!
Common exponents. Over an array, a power whose exponent varies is another operation than a single
power. Whether an exponent can vary is seen without the array: it can if it depends on the
parameter. Evaluation tells this, too, with operations that keep of each value whether it depends on
the parameter and whether all exponents in it are common.

The main statement is that functions and curves with common exponents have over an array, at each
index, the value of a single evaluation there, with the operations on doubles as they are.
-/

namespace FlightCurve

/-- What is known of a value without the array: whether it can vary over the samples, and whether
the exponents of all powers that it is computed from are common to them. -/
structure Variation where
  varies : Bool
  common : Bool

namespace Variation

def constant : Variation := ⟨false, true⟩

def parameter : Variation := ⟨true, true⟩

def join (a b : Variation) : Variation := ⟨a.varies || b.varies, a.common && b.common⟩

def pow (base exponent : Variation) : Variation :=
  ⟨base.varies || exponent.varies, base.common && (exponent.common && !exponent.varies)⟩

end Variation

namespace Arithmetic

variable {α β : Type}

def variation : Arithmetic Variation where
  zero := .constant
  one := .constant
  literal _ := .constant
  add := .join
  sub := .join
  mul := .join
  div := .join
  quotient := .join
  remainder := .join
  pow := .pow
  neg := id
  unary _ := id
  binary _ := .join

/-- Two kinds of operations side by side. -/
def prod (ops : Arithmetic α) (others : Arithmetic β) : Arithmetic (α × β) where
  zero := (ops.zero, others.zero)
  one := (ops.one, others.one)
  literal x := (ops.literal x, others.literal x)
  add a b := (ops.add a.1 b.1, others.add a.2 b.2)
  sub a b := (ops.sub a.1 b.1, others.sub a.2 b.2)
  mul a b := (ops.mul a.1 b.1, others.mul a.2 b.2)
  div a b := (ops.div a.1 b.1, others.div a.2 b.2)
  quotient a b := (ops.quotient a.1 b.1, others.quotient a.2 b.2)
  remainder a b := (ops.remainder a.1 b.1, others.remainder a.2 b.2)
  pow a b := (ops.pow a.1 b.1, others.pow a.2 b.2)
  neg a := (ops.neg a.1, others.neg a.2)
  unary fn a := (ops.unary fn a.1, others.unary fn a.2)
  binary fn a b := (ops.binary fn a.1 b.1, others.binary fn a.2 b.2)

theorem prod_related (ops : Arithmetic α) (others : Arithmetic β) :
    (ops.prod others).Related (fun p a => p.1 = a) ops ∧
      (ops.prod others).Related (fun p b => p.2 = b) others := by
  constructor
  all_goals
    refine ⟨rfl, rfl, fun _ => rfl, fun op => ?_, fun op => ?_, ?_, ?_, fun _ => ?_, fun _ => ?_⟩
    · rintro _ _ _ _ rfl rfl
      cases op <;> rfl
    · rintro _ _ _ _ rfl rfl
      cases op <;> rfl
    · rintro _ _ _ _ rfl rfl
      rfl
    · rintro _ _ rfl
      rfl
    · rintro _ _ rfl
      rfl
    · rintro _ _ _ _ rfl rfl
      rfl

end Arithmetic

/-! Values that do not vary -/

namespace Sampled

variable {α β γ : Type} {a : Sampled α} {b : Sampled β}

theorem isVaried_map (f : α → β) (a : Sampled α) : (a.map f).isVaried = a.isVaried := by
  cases a with
  | constant value => rfl
  | varying grid => cases grid <;> rfl

theorem isVaried_zip (f : α → β → γ) (ha : a.isVaried = false) (hb : b.isVaried = false) :
    (zip f a b).isVaried = false := by
  cases a with
  | constant value =>
      cases b with
      | constant other => rfl
      | varying grid => exact (isVaried_map (f value) (.varying grid)).trans hb
  | varying grid =>
      cases b with
      | constant value => exact (isVaried_map (f · value) (.varying grid)).trans ha
      | varying other =>
          cases grid with
          | cell value =>
              cases other with
              | cell value => rfl
              | axis slices => cases hb
          | axis slices => cases ha

theorem isVaried_select {condition : Sampled Bool} {c : Sampled α}
    (hcondition : condition.isVaried = false) (ha : a.isVaried = false) (hc : c.isVaried = false) :
    (select condition a c).isVaried = false :=
  isVaried_zip _ hcondition (isVaried_zip _ ha hc)

end Sampled

namespace Division

variable {α : Type} (ops : Division α Bool) {a b : Sampled α}

theorem isVaried_quotient (ha : a.isVaried = false) (hb : b.isVaried = false) :
    (ops.sampled.quotient a b).isVaried = false := by
  have hq : ((Sampled.zip ops.div a b).map ops.trunc).isVaried = false :=
    (Sampled.isVaried_map _ _).trans (Sampled.isVaried_zip _ ha hb)
  have hnegative : ((Sampled.zip ops.fmod a b).map ops.isNegative).isVaried = false :=
    (Sampled.isVaried_map _ _).trans (Sampled.isVaried_zip _ ha hb)
  have hpositive : (b.map ops.isPositive).isVaried = false := (Sampled.isVaried_map _ _).trans hb
  exact Sampled.isVaried_select hnegative
    (Sampled.isVaried_select hpositive (Sampled.isVaried_zip _ hq rfl)
      (Sampled.isVaried_zip _ hq rfl)) hq

theorem isVaried_remainder (ha : a.isVaried = false) (hb : b.isVaried = false) :
    (ops.sampled.remainder a b).isVaried = false := by
  have hr : (Sampled.zip ops.fmod a b).isVaried = false := Sampled.isVaried_zip _ ha hb
  have hnegative : ((Sampled.zip ops.fmod a b).map ops.isNegative).isVaried = false :=
    (Sampled.isVaried_map _ _).trans hr
  have habs : (b.map ops.abs).isVaried = false := (Sampled.isVaried_map _ _).trans hb
  exact Sampled.isVaried_select hnegative (Sampled.isVaried_zip _ hr habs) hr

end Division

/-! Arrays with and without the operation for varied exponents -/

namespace Arithmetic

/-- What cannot vary has one value for all samples, or there is one sample. With common exponents
the value is the one that is computed without the operation for varied exponents. -/
def IsKnown (v : Sampled Float) (known : Sampled Float × Variation) : Prop :=
  (known.2.varies = false → known.1.isVaried = false) ∧ (known.2.common = true → v = known.1)

variable {v v' : Sampled Float} {known known' : Sampled Float × Variation}

theorem IsKnown.map (h : IsKnown v known) (f : Float → Float) :
    IsKnown (v.map f) (known.1.map f, known.2) :=
  ⟨fun hvaries => (Sampled.isVaried_map f known.1).trans (h.1 hvaries),
    fun hcommon => congrArg (Sampled.map f) (h.2 hcommon)⟩

theorem IsKnown.join (h : IsKnown v known) (h' : IsKnown v' known')
    {f : Sampled Float → Sampled Float → Sampled Float}
    (hf : ∀ {a b : Sampled Float}, a.isVaried = false → b.isVaried = false →
      (f a b).isVaried = false) :
    IsKnown (f v v') (f known.1 known'.1, known.2.join known'.2) := by
  constructor
  · intro hvaries
    obtain ⟨hvaries, hvaries'⟩ := Bool.or_eq_false_iff.1 hvaries
    exact hf (h.1 hvaries) (h'.1 hvaries')
  · intro hcommon
    obtain ⟨hcommon, hcommon'⟩ := Bool.and_eq_true_iff.1 hcommon
    rw [h.2 hcommon, h'.2 hcommon']

theorem IsKnown.zip (h : IsKnown v known) (h' : IsKnown v' known') (f : Float → Float → Float) :
    IsKnown (Sampled.zip f v v') (Sampled.zip f known.1 known'.1, known.2.join known'.2) :=
  h.join h' (Sampled.isVaried_zip f)

/-- Where it matters which operation the power is, the exponent is common. -/
theorem IsKnown.pow (h : IsKnown v known) (h' : IsKnown v' known') :
    IsKnown (Sampled.pow .double v v')
      (Sampled.pow .uniformDouble known.1 known'.1, known.2.pow known'.2) := by
  constructor
  · intro hvaries
    obtain ⟨hvaries, hvaries'⟩ := Bool.or_eq_false_iff.1 hvaries
    exact Sampled.isVaried_zip _ (h.1 hvaries) (h'.1 hvaries')
  · intro hcommon
    obtain ⟨hcommon, hexponent⟩ := Bool.and_eq_true_iff.1 hcommon
    obtain ⟨hcommon', hvaries'⟩ := Bool.and_eq_true_iff.1 hexponent
    have hvaried : known'.1.isVaried = false := h'.1 (by simpa using hvaries')
    rw [h.2 hcommon, h'.2 hcommon', Sampled.pow, Sampled.pow, hvaried]
    rfl

theorem sampled_double_related :
    (sampled .double).Related IsKnown ((sampled .uniformDouble).prod variation) where
  zero := ⟨fun _ => rfl, fun _ => rfl⟩
  one := ⟨fun _ => rfl, fun _ => rfl⟩
  literal _ := ⟨fun _ => rfl, fun _ => rfl⟩
  additive op := by
    intro v v' known known' h h'
    cases op with
    | plus => exact h.zip h' double.add
    | minus => exact h.zip h' double.sub
  multiplicative op := by
    intro v v' known known' h h'
    cases op with
    | times => exact h.zip h' double.mul
    | divide => exact h.zip h' double.div
    | floorDivide => exact h.join h' Division.double.isVaried_quotient
    | modulo => exact h.join h' Division.double.isVaried_remainder
  pow h h' := h.pow h'
  neg h := h.map double.neg
  unary fn := fun h => h.map (double.unary fn)
  binary fn := fun h h' => h.zip h' (double.binary fn)

end Arithmetic

/-! Functions and curves with common exponents -/

namespace Function

variable {assigns : List Function} {f : Function}

/-- No exponent in the function, or in the assignments that it refers to, depends on the
parameter. -/
def hasCommonExponents (assigns : List Function) (f : Function) : Bool :=
  (f.evaluateWith .variation assigns .parameter).all Variation.common

theorem evaluateWith_prod {α β : Type} (ops : Arithmetic α) (others : Arithmetic β) (t : α) (u : β)
    (assigns : List Function) (f : Function) :
    (f.evaluateWith (ops.prod others) assigns (t, u)).map Prod.fst = f.evaluateWith ops assigns t ∧
      (f.evaluateWith (ops.prod others) assigns (t, u)).map Prod.snd =
        f.evaluateWith others assigns u := by
  obtain ⟨hfst, hsnd⟩ := ops.prod_related others
  exact ⟨map_eq_of_rel (evaluateWith_related hfst rfl assigns f),
    map_eq_of_rel (evaluateWith_related hsnd rfl assigns f)⟩

/-- With common exponents the operation for varied ones is not used. -/
theorem evaluateWith_sampled_double (h : f.hasCommonExponents assigns) (ts : Grid Float) :
    f.evaluateWith (.sampled .double) assigns (.varying ts) =
      f.evaluateWith (.sampled .uniformDouble) assigns (.varying ts) := by
  have hparameter : Arithmetic.IsKnown (.varying ts) (.varying ts, .parameter) :=
    ⟨fun hvaries => (by cases hvaries), fun _ => rfl⟩
  have hrelated := evaluateWith_related Arithmetic.sampled_double_related hparameter assigns f
  obtain ⟨huniform, hvariation⟩ := evaluateWith_prod (.sampled .uniformDouble) .variation
    (.varying ts) .parameter assigns f
  rw [hasCommonExponents, ← hvariation] at h
  rw [← huniform]
  cases hall : f.evaluateWith ((Arithmetic.sampled .uniformDouble).prod .variation) assigns
      (.varying ts, .parameter) with
  | none =>
      rw [hall] at hrelated
      exact eq_none_of_rel_none hrelated
  | some known =>
      rw [hall] at hrelated h
      obtain ⟨value, hvalue, hknown⟩ := exists_of_rel_some hrelated
      rw [hvalue]
      exact congrArg some (hknown.2 h)

/-- A function with common exponents has over an array the value of a single evaluation at the index
of each parameter. -/
theorem evaluateMany_agrees (h : f.hasCommonExponents assigns) (ts : Grid Float) :
    (∀ t, (f.evaluateMany assigns ts).isSome = (f.evaluateWith .double assigns t).isSome) ∧
      ∀ values, f.evaluateMany assigns ts = some values →
        (∀ shape, values.HasShape shape ↔ ts.HasShape shape) ∧
        ∀ index, values.get? index =
          (ts.get? index).bind fun t => f.evaluateWith .double assigns t := by
  rw [evaluateMany_eq, evaluateManyWith, evaluateWith_sampled_double h]
  exact evaluateManyWith_agrees ElementArithmetic.uniformDouble_elementwise assigns f ts

theorem spread_get_double (h : f.hasCommonExponents assigns) (ts : Grid Float)
    (hvalues : (f.evaluateWith (.sampled .double) assigns (.varying ts)).isSome)
    (hsingle : ∀ t, (f.evaluateWith .double assigns t).isSome) :
    ((f.evaluateWith (.sampled .double) assigns (.varying ts)).get hvalues).spread ts =
      ts.map fun t => (f.evaluateWith .double assigns t).get (hsingle t) := by
  simp only [evaluateWith_sampled_double h]
  exact spread_get ElementArithmetic.uniformDouble_elementwise ts _ hsingle

end Function

namespace Curve

/-- No exponent in either coordinate depends on the parameter. -/
def hasCommonExponents (c : Curve) : Bool :=
  c.x.hasCommonExponents c.assigns && c.y.hasCommonExponents c.assigns

/-- The positions over an array, as points and as pairs along a last axis of length two. -/
theorem positions_agree {c : Curve} (h : c.hasCommonExponents) (ts : Grid Float) :
    c.positions ts = ts.map c.position ∧
    (∀ shape, (c.coordinates .double ts).HasShape (shape ++ [2]) ↔ ts.HasShape shape) ∧
    ∀ index t, ts.get? index = some t →
      (c.coordinates .double ts).get? (index ++ [0]) = some (c.position t).x ∧
      (c.coordinates .double ts).get? (index ++ [1]) = some (c.position t).y := by
  obtain ⟨hx, hy⟩ := Bool.and_eq_true_iff.1 h
  have hpositions : c.positions ts = ts.map c.position := by
    have hxs : (c.xWith (.sampled .double) (.varying ts)).spread ts = ts.map (c.xWith .double) :=
      Function.spread_get_double hx ts _ _
    have hys : (c.yWith (.sampled .double) (.varying ts)).spread ts = ts.map (c.yWith .double) :=
      Function.spread_get_double hy ts _ _
    rw [positions, hxs, hys, Grid.zip_map_map]
    rfl
  rw [c.coordinates_double, hpositions, Grid.map_map]
  exact ⟨rfl, fun shape => Grid.hasShape_join_pair _ _ shape ts,
    fun index t ht => Grid.get?_join_pair _ _ ts ht⟩

end Curve

end FlightCurve
