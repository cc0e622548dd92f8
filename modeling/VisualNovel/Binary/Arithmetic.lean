import VisualNovel.Binary.Basic

/-!
# Arithmetic and comparison of binary numbers

Sums, products and quotients are the exact ones rounded once. Comparison goes by exact value:
`Binary.rank?` puts every number but not-a-number on one integer scale, infinities at its ends, so a
comparison with not-a-number is false and the two zeros are equal.
-/

namespace VisualNovel.Binary

variable {f : Format}

/-! ## Comparison -/

/-- An integer with a sign given apart. -/
def signed (negative : Bool) (magnitude : Nat) : Int :=
  if negative then -magnitude else magnitude

/-- The place of a number in the order of values: its units, where an infinite magnitude counts as
the first one past the finite ones. -/
def rank? : Binary f → Option Int
  | .finite negative place => some (signed negative (f.units place))
  | .infinite negative => some (signed negative (f.units f.magnitudes))
  | .nan => none

/-- Whether two numbers are comparable and `related` holds of their ranks. -/
def compareBy (related : Int → Int → Bool) (x y : Binary f) : Bool :=
  match x.rank?, y.rank? with
  | some a, some b => related a b
  | _, _ => false

/-- Equality of values: not reflexive at not-a-number, and true of the two zeros. -/
instance : BEq (Binary f) := ⟨compareBy fun a b => a == b⟩

instance : LT (Binary f) := ⟨fun x y => compareBy (fun a b => a < b) x y = true⟩

instance : LE (Binary f) := ⟨fun x y => compareBy (fun a b => a ≤ b) x y = true⟩

instance (x y : Binary f) : Decidable (x < y) := inferInstanceAs (Decidable (_ = true))

instance (x y : Binary f) : Decidable (x ≤ y) := inferInstanceAs (Decidable (_ = true))

/-! ## Arithmetic -/

/-- A sum of finite numbers; an exact zero is negative only if both terms are. -/
def addFinite (s : Bool) (a : Nat) (t : Bool) (b : Nat) : Binary f :=
  let sum := signed s (f.units a) + signed t (f.units b)
  if sum = 0 then ofPlace (s && t) 0
  else ofPlace (sum < 0) (f.nearest sum.natAbs 1)

/-- The rounded sum. -/
def add : Binary f → Binary f → Binary f
  | .nan, _ => .nan
  | _, .nan => .nan
  | .infinite s, .infinite t => if s = t then .infinite s else .nan
  | .infinite s, _ => .infinite s
  | _, .infinite t => .infinite t
  | .finite s a, .finite t b => addFinite s a t b

/-- The rounded product. -/
def mul : Binary f → Binary f → Binary f
  | .nan, _ => .nan
  | _, .nan => .nan
  | .finite s a, .finite t b =>
    ofPlace (s ^^ t) (f.nearest (f.units a * f.units b) (1 <<< f.unitPlaces))
  | .finite s a, .infinite t => if f.units a = 0 then .nan else .infinite (s ^^ t)
  | .infinite s, .finite t b => if f.units b = 0 then .nan else .infinite (s ^^ t)
  | .infinite s, .infinite t => .infinite (s ^^ t)

/-- The rounded quotient. -/
def div : Binary f → Binary f → Binary f
  | .nan, _ => .nan
  | _, .nan => .nan
  | .finite s a, .finite t b =>
    if f.units b = 0 then (if f.units a = 0 then .nan else .infinite (s ^^ t))
    else ofQuotient (s ^^ t) (f.units a) (f.units b)
  | .finite s _, .infinite t => ofPlace (s ^^ t) 0
  | .infinite s, .finite t _ => .infinite (s ^^ t)
  | .infinite _, .infinite _ => .nan

instance : Add (Binary f) := ⟨add⟩

instance : Mul (Binary f) := ⟨mul⟩

instance : Div (Binary f) := ⟨div⟩

end VisualNovel.Binary
