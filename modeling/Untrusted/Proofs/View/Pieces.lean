import Mathlib
import Untrusted.Proofs.Pattern.Matches
import Untrusted.Proofs.View.Optional

/-!
# Pieces of a view

What a reader takes from a view, and what it drops, are ranges of one source. They tile the view if
each starts where the one before it stops and together they hold the bytes before what is left.
-/

namespace Untrusted

/-- Bytes and where in their source they are. -/
structure Piece where
  source : Source
  offset : Nat
  bytes : List UInt8

def View.piece (v : View) : Piece := ⟨v.source, v.offset, v.bytes⟩

def Piece.joined (pieces : List Piece) : List UInt8 := pieces.flatMap Piece.bytes

namespace Piece

@[simp]
theorem joined_nil : joined [] = [] := rfl

@[simp]
theorem joined_cons (p : Piece) (pieces : List Piece) :
    joined (p :: pieces) = p.bytes ++ joined pieces := rfl

@[simp]
theorem joined_append (a b : List Piece) : joined (a ++ b) = joined a ++ joined b := by
  simp [joined]

/-- Pieces of a source between two places, each of which starts where the one before it stops. -/
inductive Row (s : Source) : Nat → List Piece → Nat → Prop where
  | nil (i : Nat) : Row s i [] i
  | cons {i j : Nat} {bytes : List UInt8} {rest : List Piece} :
      Row s (i + bytes.length) rest j → Row s i (⟨s, i, bytes⟩ :: rest) j

theorem Row.append {s : Source} {i j k : Nat} {a b : List Piece} (ha : Row s i a j)
    (hb : Row s j b k) : Row s i (a ++ b) k := by
  induction ha with
  | nil => exact hb
  | cons _ ih => exact .cons (ih hb)

end Piece

namespace View

/-- The pieces tile a view up to the start of `rest`, which is what is left of it. -/
structure Tiles (v rest : View) (pieces : List Piece) : Prop where
  source : rest.source = v.source
  row : Piece.Row v.source v.offset pieces rest.offset
  bytes : Piece.joined pieces ++ rest.bytes = v.bytes

variable {u v w : View} {pieces more : List Piece}

theorem tiles_nil (v : View) : v.Tiles v [] := ⟨rfl, .nil _, by simp⟩

theorem Tiles.append (h : v.Tiles u pieces) (h' : u.Tiles w more) :
    v.Tiles w (pieces ++ more) := by
  refine ⟨h'.source.trans h.source, h.row.append (h.source ▸ h'.row), ?_⟩
  rw [Piece.joined_append, List.append_assoc, h'.bytes, h.bytes]

theorem Tiles.joined_eq (h : v.Tiles w pieces) (h' : v.Tiles w more) :
    Piece.joined pieces = Piece.joined more :=
  List.append_cancel_right (h.bytes.trans h'.bytes.symm)

/-! ## Cuts -/

theorem tiles_take {i : Nat} (le : i ≤ v.bytes.length) (source : w.source = v.source)
    (start : w.offset = v.offset + i) (left : w.bytes = v.bytes.drop i) :
    v.Tiles w [⟨v.source, v.offset, v.bytes.take i⟩] := by
  refine ⟨source, .cons ?_, ?_⟩
  · rw [List.length_take, Nat.min_eq_left le, start]
    exact .nil _
  · rw [left, Piece.joined_cons, Piece.joined_nil, List.append_nil, List.take_append_drop]

theorem Sound.piece_cut (h : v.Sound) {i : Nat} (le : i ≤ v.size) :
    (v.cut i).1.piece = ⟨v.source, v.offset, v.bytes.take i⟩ := by
  rw [h.cut_eq, piece, bytes_resize le]

theorem Sound.bytes_cut (h : v.Sound) {i : Nat} (le : i ≤ v.size) :
    (v.cut i).2.bytes = v.bytes.drop i := by
  rw [h.cut_eq]
  exact h.bytes_shift le _

theorem Sound.tiles_cut (h : v.Sound) {i : Nat} (le : i ≤ v.size) :
    v.Tiles (v.cut i).2 [(v.cut i).1.piece] := by
  rw [h.piece_cut le]
  refine tiles_take (le.trans h.length_bytes.ge) ?_ ?_ (h.bytes_cut le)
  all_goals rw [h.cut_eq]

theorem Sound.tiles_cut_twice (h : v.Sound) {i j : Nat} (le : i + j ≤ v.size) :
    v.Tiles (v.cut (i + j)).2
      [(v.cut i).1.piece, ⟨v.source, v.offset + i, (v.bytes.drop i).take j⟩] := by
  have inside : i ≤ v.size := by omega
  have left := h.bytes_cut inside
  have between : (v.cut i).2.Tiles (v.cut (i + j)).2
      [⟨v.source, v.offset + i, (v.bytes.drop i).take j⟩] := by
    have room : j ≤ (v.cut i).2.bytes.length := by
      rw [left, List.length_drop, h.length_bytes]
      omega
    have pieces := tiles_take (w := (v.cut (i + j)).2) room (by simp only [h.cut_eq])
      (by simp only [h.cut_eq, Nat.add_assoc])
      (by rw [left, List.drop_drop, h.bytes_cut le])
    rw [left] at pieces
    simpa only [h.cut_eq] using pieces
  exact (h.tiles_cut inside).append between

theorem Sound.tiles_exhausted (h : v.Sound) : v.Tiles v.exhausted.2 [v.exhausted.1.piece] := by
  have head : v.exhausted.1.piece = ⟨v.source, v.offset, v.bytes.take v.size⟩ := by
    rw [← h.length_bytes, List.take_length]
    rfl
  rw [head, exhausted, h.endView_eq]
  exact tiles_take h.length_bytes.ge rfl rfl (h.bytes_shift (Nat.le_refl _) _)

theorem Sound.tiles_consumedHead (h : v.Sound) {rest : View} (hr : rest.TailOf v) :
    v.Tiles rest [(v.consumedHead rest).piece] := by
  have le := hr.size_le
  have start := hr.start
  have stop := hr.stop
  have head : (v.consumedHead rest).piece =
      ⟨v.source, v.offset, v.bytes.take (v.size - rest.size)⟩ := by
    rw [h.consumedHead_eq hr, piece, bytes_resize (Nat.sub_le _ _)]
  have left : rest.bytes = v.bytes.drop (v.size - rest.size) := by
    rw [← h.bytes_shift (Nat.sub_le _ _) v.bound]
    simp only [bytes, hr.source]
    congr 1 <;> omega
  rw [head]
  refine tiles_take ?_ hr.source ?_ left
  · rw [h.length_bytes]
    exact Nat.sub_le _ _
  · omega

/-- A cut either finds nothing, and then drops nothing, or its first part and what it drops tile the
view up to its second part. -/
def Splits (v : View) (parts : Option (View × View)) (dropped : List Piece) : Prop :=
  parts = none ∧ dropped = [] ∨
    ∃ found, parts = some found ∧ v.Tiles found.2 (found.1.piece :: dropped)

theorem Splits.of_some {parts : Option (View × View)}
    (h : ∀ found, parts = some found → v.Tiles found.2 [found.1.piece]) : v.Splits parts [] := by
  cases parts with
  | none => exact .inl ⟨rfl, rfl⟩
  | some found => exact .inr ⟨found, rfl, h found rfl⟩

theorem Splits.of_ok {r : Except Failure (View × View)}
    (h : ∀ found, r = .ok found → v.Tiles found.2 [found.1.piece]) : v.Splits r.toOption [] := by
  cases r with
  | error _ => exact .inl ⟨rfl, rfl⟩
  | ok found => exact .inr ⟨found, rfl, h found rfl⟩

theorem Sound.splits_splitAt (h : v.Sound) (n : Number) : v.Splits (v.splitAt? n) [] := by
  refine .of_some fun parts cut => ?_
  obtain ⟨i, place, rfl⟩ := Option.map_eq_some_iff.1 cut
  obtain ⟨count, -, index⟩ := Option.bind_eq_some_iff.1 place
  have le := (h.boundary_of_byteIndex? index).le
  rw [h.length_bytes] at le
  exact h.tiles_cut le

theorem Sound.splits_splitWhile (h : v.Sound) {p : Pattern} (hp : p.Respects v.kind) :
    v.Splits (some (v.splitWhile p)) [] := by
  refine .of_some fun parts same => ?_
  cases same
  unfold splitWhile
  split
  · exact h.tiles_exhausted
  · rename_i n rejected
    obtain ⟨i, rfl, boundary⟩ := hp _ _ h.whole rejected
    have le := boundary.le
    rw [h.length_bytes] at le
    simp only [Number.toNat?_ofNat]
    rw [if_pos ((h.isBoundary_iff i).2 boundary)]
    exact h.tiles_cut le

theorem Sound.splits_splitUntil (h : v.Sound) (p : Pattern) :
    v.Splits (v.splitUntil? p) [] := by
  refine .of_some fun parts cut => ?_
  obtain ⟨⟨start, stop⟩, found, rfl⟩ := Option.map_eq_some_iff.1 cut
  have le := (h.locate?_boundaries found).1.le
  rw [h.length_bytes] at le
  exact h.tiles_cut le

theorem Sound.splits_trySplitWhile (h : v.Sound) (mode : Mode) (check : Check) (op : Operation) :
    v.Splits (v.trySplitWhile mode check op).toOption [] := by
  refine .of_ok fun parts cut => ?_
  unfold trySplitWhile at cut
  split at cut
  · cases cut
    exact h.tiles_exhausted
  · rename_i found
    rw [eq_of_stopped cut]
    have le := (h.boundary_of_firstWhere? found).le
    rw [h.length_bytes] at le
    exact h.tiles_cut le

theorem Sound.splits_trySplitStrWhile (h : v.Sound) (mode : Mode) (check : Check)
    (op : Operation) : v.Splits (v.trySplitStrWhile mode check op).toOption [] := by
  refine .of_ok fun parts cut => ?_
  unfold trySplitStrWhile at cut
  split at cut
  · cases cut
    exact h.tiles_exhausted
  · rename_i i c n scanned
    obtain ⟨cs, rest, split, rfl, -⟩ := Utf8.exists_append_of_scanTo scanned
    have le : 0 + (Utf8.encode cs).length ≤ v.size := by
      rw [← h.length_bytes, split, List.length_append]
      omega
    rw [eq_of_stopped cut]
    exact h.tiles_cut le
  · contradiction
  · contradiction

/-! ## Matches -/

def matched (v : View) (p : Pattern) : List Piece :=
  match p.find? v.bytes with
  | some (i, n) =>
    match i.toNat?, n.toNat? with
    | some i, some n => [⟨v.source, v.offset + i, (v.bytes.drop i).take n⟩]
    | _, _ => []
  | none => []

/-- A view can be cut where a pattern of the library finds something, and a cut that goes past it
leaves out just that. -/
theorem Sound.splits_splitUntilConsume (h : v.Sound) (small : v.size ≤ Number.wholeLimit)
    {p : Pattern} (library : p.Library) (admissible : p.Admissible v.kind) :
    v.Splits (v.splitUntilConsume? p) (v.matched p) := by
  cases search : p.find? v.bytes with
  | none => exact .inl ⟨by simp [splitUntilConsume?, locate?, search], by simp [matched, search]⟩
  | some found =>
    obtain ⟨i, n, rfl, first, last⟩ := library.find?_boundaries admissible h.whole search
    have le := last.le
    rw [h.length_bytes] at le
    have place := locate?_of_boundaries search (le.trans small) ((h.isBoundary_iff i).2 first)
      ((h.isBoundary_iff (i + n)).2 last)
    have pieces : v.matched p = [⟨v.source, v.offset + i, (v.bytes.drop i).take n⟩] := by
      simp only [matched, search, Number.toNat?_ofNat]
    refine .inr ⟨_, by rw [splitUntilConsume?, place, Option.map_some], ?_⟩
    rw [pieces]
    exact h.tiles_cut_twice le

def leading (v : View) (literal : List UInt8) : List Piece :=
  if v.hasPrefix literal then [⟨v.source, v.offset, literal⟩] else []

theorem Sound.leading_cases (h : v.Sound) (literal : List UInt8) :
    v.splitPrefix? literal = none ∧ v.leading literal = [] ∨
      ∃ parts, v.splitPrefix? literal = some parts ∧ v.Tiles parts.2 (v.leading literal) := by
  unfold splitPrefix? leading
  split
  · rename_i starts
    obtain ⟨rest, same⟩ := List.isPrefixOf_iff_prefix.1 starts
    have le : literal.length ≤ v.size := by
      rw [← h.length_bytes, ← same, List.length_append]
      exact Nat.le_add_right _ _
    have head : (v.cut literal.length).1.piece = ⟨v.source, v.offset, literal⟩ := by
      rw [h.piece_cut le, ← same, List.take_left]
    exact .inr ⟨_, rfl, head ▸ h.tiles_cut le⟩
  · exact .inl ⟨rfl, rfl⟩

end View
end Untrusted
