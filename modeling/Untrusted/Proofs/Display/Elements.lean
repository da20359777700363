import Mathlib
import Untrusted.Display.Elements
import Untrusted.Proofs.Utf8.Valid

/-!
# Elements show each byte once

The elements of an input stand for its bytes in their order, one range after the other. So no
element comes twice, and each place of the input lies in one of them.
-/

namespace Untrusted.Display

/-- A row of elements that shows the bytes from `i` up to `j`, each of them once and in order. -/
inductive Tiles : Nat → Nat → List Element → Prop where
  | nil (i : Nat) : Tiles i i []
  | cons {i j : Nat} {e : Element} {rest : List Element} (start : e.start = i) (filled : i < e.stop)
      (later : Tiles e.stop j rest) : Tiles i j (e :: rest)

/-! ## Rows -/

section

variable {i j k : Nat} {e : Element} {es : List Element}

theorem Tiles.le (h : Tiles i j es) : i ≤ j := by
  induction h with
  | nil i => exact le_rfl
  | cons start filled later ih => omega

theorem Tiles.bounds (h : Tiles i j es) (he : e ∈ es) :
    i ≤ e.start ∧ e.start < e.stop ∧ e.stop ≤ j := by
  induction h with
  | nil i => simp at he
  | cons start filled later ih =>
    rcases List.mem_cons.1 he with rfl | he
    · exact ⟨start.ge, start ▸ filled, later.le⟩
    · have := ih he
      omega

theorem Tiles.pairwise (h : Tiles i j es) : es.Pairwise fun a b => a.stop ≤ b.start := by
  induction h with
  | nil i => exact .nil
  | cons start filled later ih => exact .cons (fun b hb => (later.bounds hb).1) ih

theorem Tiles.eq_nil_iff (h : Tiles i j es) : es = [] ↔ i = j := by
  cases h with
  | nil i => simp
  | cons start filled later =>
    have := later.le
    simp
    omega

theorem Tiles.nodup (h : Tiles i j es) : es.Nodup := by
  induction h with
  | nil i => exact .nil
  | cons start filled later ih =>
    refine List.nodup_cons.2 ⟨fun again => ?_, ih⟩
    have := later.bounds again
    omega

theorem Tiles.exists_at (h : Tiles i j es) (le : i ≤ k) (lt : k < j) :
    ∃ before e after, es = before ++ e :: after ∧ e.start ≤ k ∧ k < e.stop ∧
      ∀ b ∈ before, b.stop ≤ k := by
  induction h with
  | nil i => omega
  | cons start filled later ih =>
    rename_i i j e rest
    rcases Nat.lt_or_ge k e.stop with inside | after
    · exact ⟨[], e, rest, rfl, by omega, inside, by simp⟩
    · obtain ⟨before, f, after', rfl, starts, stops, passed⟩ := ih after lt
      refine ⟨e :: before, f, after', rfl, starts, stops, fun b hb => ?_⟩
      rcases List.mem_cons.1 hb with rfl | hb
      · exact after
      · exact passed b hb

end

/-! ## The elements of an input -/

theorem tiles_mapIdx (text : UInt8 → List Char) (bytes : List UInt8) (i : Nat) :
    Tiles i (i + bytes.length) (bytes.mapIdx fun n b => ⟨text b, i + n, i + n + 1⟩) := by
  induction bytes generalizing i with
  | nil => exact .nil i
  | cons b bytes ih =>
    rw [List.mapIdx_cons]
    refine .cons rfl (Nat.lt_succ_self i) ?_
    have later := ih (i + 1)
    simp only [Nat.add_assoc, Nat.add_comm 1] at later ⊢
    exact later

theorem tiles_byteElements (quoteAscii : Bool) (bytes : List UInt8) :
    Tiles 0 bytes.length (byteElements quoteAscii bytes) := by
  simpa [byteElements] using tiles_mapIdx (byteText quoteAscii) bytes 0

theorem stop_of_mem_byteElements {quoteAscii : Bool} {bytes : List UInt8} {e : Element}
    (he : e ∈ byteElements quoteAscii bytes) : e.stop = e.start + 1 := by
  obtain ⟨n, -, rfl⟩ := List.mem_mapIdx.1 he
  rfl

theorem tiles_charElementsFrom (cs : List Char) (i : Nat) :
    Tiles i (i + (Utf8.encode cs).length) (charElementsFrom i (Utf8.scan (Utf8.encode cs)).1) := by
  induction cs generalizing i with
  | nil =>
    rw [show Utf8.encode [] = [] from rfl, Utf8.scan_nil]
    exact .nil i
  | cons c cs ih =>
    rw [Utf8.encode_cons, Utf8.scan_encodeChar_append, List.length_append, ← Nat.add_assoc]
    have filled : 0 < (String.utf8EncodeChar c).length := by
      simpa using Char.utf8Size_pos c
    exact .cons rfl (Nat.lt_add_of_pos_right filled) (ih _)

theorem tiles_elements {isText hint : Bool} {bytes : List UInt8}
    (valid : isText = true → Utf8.isValid bytes = true) :
    Tiles 0 bytes.length (elements isText hint bytes).1 := by
  unfold elements
  split
  · rename_i textual
    have encoded : Utf8.isValid bytes = true := by
      cases isText with
      | true => exact valid rfl
      | false => simpa using (And.right (by simpa using textual))
    obtain ⟨cs, rfl⟩ := Utf8.exists_encode_of_isValid encoded
    simpa [charElements] using tiles_charElementsFrom cs 0
  · exact tiles_byteElements hint bytes

theorem stop_of_mem_elements {isText hint : Bool} {bytes : List UInt8} {e : Element}
    (plain : (elements isText hint bytes).2 = false) (he : e ∈ (elements isText hint bytes).1) :
    e.stop = e.start + 1 := by
  unfold elements at plain he
  split at plain
  · contradiction
  · rename_i noText
    rw [if_neg noText] at he
    exact stop_of_mem_byteElements he

/-! ## Columns -/

/-- How many columns an element takes, counted in 16-bit units. -/
def Element.width (e : Element) : Nat := (Utf8.units e.text).length

theorem units_pos {cs : List Char} (h : cs ≠ []) : 0 < (Utf8.units cs).length := by
  cases cs with
  | nil => contradiction
  | cons c cs =>
    have char : 0 < (Utf8.charUnits c).length := by
      unfold Utf8.charUnits
      split <;> simp
    rw [Utf8.units, List.flatMap_cons, List.length_append]
    omega

theorem escape_ne_nil (c : Char) : escape c ≠ [] := by
  unfold escape
  split_ifs <;> simp

theorem byteText_ne_nil (quoteAscii : Bool) (b : UInt8) : byteText quoteAscii b ≠ [] := by
  unfold byteText
  split <;> simp [Text.hex]

theorem text_ne_nil_of_mem_charElementsFrom {e : Element} {i : Nat} {cs : List (Char × Nat)}
    (he : e ∈ charElementsFrom i cs) : e.text ≠ [] := by
  induction cs generalizing i with
  | nil => simp [charElementsFrom] at he
  | cons c cs ih =>
    rcases List.mem_cons.1 he with rfl | he
    · exact escape_ne_nil c.1
    · exact ih he

theorem width_pos_of_mem_elements {isText hint : Bool} {bytes : List UInt8} {e : Element}
    (he : e ∈ (elements isText hint bytes).1) : 0 < e.width := by
  apply units_pos
  unfold elements at he
  split at he
  · exact text_ne_nil_of_mem_charElementsFrom he
  · obtain ⟨n, -, rfl⟩ := List.mem_mapIdx.1 he
    exact byteText_ne_nil hint _

end Untrusted.Display
