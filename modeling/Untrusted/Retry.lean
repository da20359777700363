import Untrusted.Number.Text

/-!
# Retry requirements

How many more bytes a failed read needs before it could succeed. A failure without a requirement is
final.
-/

namespace Untrusted

def byteCount (n : Number) : String := if n = 1 then "1 byte" else n.text ++ " bytes"

/-- A strictly positive count of further bytes. -/
structure Retry where
  count : Nat
  pos : 0 < count
  deriving DecidableEq, Repr

namespace Retry

def create? (n : Number) : Option Retry :=
  n.toNat?.bind fun count => if pos : 0 < count then some ⟨count, pos⟩ else none

/-- The requirement of a read that needs `needed` bytes and `had` fewer. -/
def ofHadAndNeeded? (had needed : Number) : Option Retry :=
  create? (Number.greatest 0 (needed.sub had))

theorem create?_ofNat (n : Nat) :
    create? (Number.ofNat n) = if pos : 0 < n then some ⟨n, pos⟩ else none := by
  simp [create?, Number.toNat?_ofNat]

def metBy (r : Retry) (count : Number) : Bool := (Number.ofNat r.count).le count

def text (r : Retry) : String := byteCount r.count ++ " more"

end Retry
end Untrusted
