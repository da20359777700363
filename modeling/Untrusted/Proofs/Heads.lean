import Mathlib
import Untrusted.Proofs.Ahead.Search
import Untrusted.Proofs.Utf8.Problem
import Untrusted.Proofs.View.Settled

/-!
# Heads that are final

A cut closes its head where the bytes before the end of the head and the token or match after it
decide on the place. What arrives later changes nothing about such a head. A head that a cut leaves
open is all of the view.
-/

namespace Untrusted

namespace Utf8

variable {stops : Char → Bool} {l : List UInt8} {i j : Nat}

theorem charsLength?_append {n : Nat} (h : charsLength? n i l = some j) (r : List UInt8) :
    charsLength? n i (l ++ r) = some j := by
  induction n generalizing i l with
  | zero => exact h
  | succ n ih =>
    rw [charsLength?] at h ⊢
    split at h
    · rename_i c k read
      rw [decode_append_of_ok read]
      simp only [List.drop_append_of_le_length (length_of_decode read).2]
      exact ih h
    · contradiction

theorem scanTo_append_of_ok {found : Char × Nat} (h : scanTo stops i l = (j, some (.ok found)))
    (r : List UInt8) : scanTo stops i (l ++ r) = (j, some (.ok found)) := by
  fun_induction scanTo stops i l with
  | case1 => simp at h
  | case2 => simp at h
  | case3 i l filled c n read stop =>
    rw [scanTo_of_decode (decode_append_of_ok read r), if_pos stop]
    exact h
  | case4 i l filled c n read pass ih =>
    rw [scanTo_of_decode (decode_append_of_ok read r), if_neg pass,
      List.drop_append_of_le_length (length_of_decode read).2]
    exact ih h

end Utf8

namespace Kind

theorem Boundary.append {k : Kind} {l q : List UInt8} {i : Nat} (h : k.Boundary l i)
    (whole : k.Whole l) (whole' : k.Whole (l ++ q)) : k.Boundary (l ++ q) i := by
  have before := (h.whole_parts whole).1
  have split : l ++ q = l.take i ++ (l.drop i ++ q) := by
    rw [← List.append_assoc, List.take_append_drop]
  have place := boundary_of_whole_prefix before (split ▸ whole')
  rwa [← split, List.length_take, Nat.min_eq_left h.le] at place

end Kind

namespace Pattern

def Plain : Pattern → Prop
  | .byte _ => True
  | .literal _ => True
  | .byteWhere _ => True
  | .charWhere _ => True
  | _ => False

/-- Passes over one token at a time. -/
def Tokenwise : Pattern → Prop
  | .byte _ => True
  | .byteWhere _ => True
  | .charWhere _ => True
  | _ => False

variable {p : Pattern} {l : List UInt8}

theorem Plain.find?_append (hp : p.Plain) {found : Number × Number} (h : p.find? l = some found)
    (r : List UInt8) : p.find? (l ++ r) = some found := by
  have sought (hs : p.Sought) : p.find? (l ++ r) = some found := by
    obtain ⟨-, -, -, -, again⟩ := Pattern.find?_append hs h
    exact again r
  cases p with
  | byte value => exact sought trivial
  | literal needle => exact sought trivial
  | byteWhere accepts => exact sought trivial
  | charWhere accepts =>
    simp only [find?] at h ⊢
    split at h
    · rename_i scanned
      rw [Utf8.scanTo_append_of_ok scanned]
      exact h
    · contradiction
  | regex _ | custom _ _ => exact hp.elim

theorem Tokenwise.reject?_append {k : Kind} (hp : p.Tokenwise) (admissible : p.Admissible k)
    (whole : k.Whole l) {n : Number} (h : p.reject? l = some n) (r : List UInt8) :
    p.reject? (l ++ r) = some n := by
  have bytewise (hb : p.Bytewise) : p.reject? (l ++ r) = some n := by
    obtain ⟨f, hf⟩ := hb.reject?_eq
    rw [hf] at h ⊢
    obtain ⟨i, found, rfl⟩ := Option.map_eq_some_iff.1 h
    rw [findIdx?_append_of_eq_some found]
    rfl
  cases p with
  | byte value => exact bytewise trivial
  | byteWhere accepts => exact bytewise trivial
  | charWhere accepts =>
    obtain rfl : k = .text := admissible
    simp only [reject?] at h ⊢
    split at h
    · rename_i i found scanned
      cases found with
      | error f =>
        obtain ⟨cs, rest, rfl, -, -, filled, failed⟩ := Utf8.exists_of_scanTo_error scanned
        have encoded : Utf8.Encoded (Utf8.encode cs ++ rest) := Utf8.encoded_iff_isValid.2 whole
        rw [Utf8.encoded_encode_append] at encoded
        exact absurd encoded (Utf8.not_encoded_of_decode_error failed filled)
      | ok found =>
        rw [Utf8.scanTo_append_of_ok scanned]
        exact h
    · contradiction
  | literal _ | regex _ | custom _ _ => exact hp.elim

end Pattern

namespace View

theorem Sound.cut_head_bytes {v : View} {i : Nat} (h : v.Sound) (le : i ≤ v.size) :
    (v.cut i).1.bytes = v.bytes.take i := by
  rw [h.cut_eq]
  exact bytes_resize le _

/-! ## The same view after more bytes arrived -/

/-- The view from the same place with `q` after its bytes. -/
structure GrownBy (v : View) (q : List UInt8) (w : View) : Prop where
  left : v.Sound
  right : w.Sound
  kind : w.kind = v.kind
  offset : w.offset = v.offset
  bytes : w.bytes = v.bytes ++ q

variable {v w : View} {q : List UInt8} {i j : Nat}

namespace GrownBy

theorem size_eq (h : v.GrownBy q w) : w.size = v.size + q.length := by
  rw [← h.right.length_bytes, ← h.left.length_bytes, h.bytes, List.length_append]

theorem isBoundary (h : v.GrownBy q w) (hi : v.isBoundary i = true) : w.isBoundary i = true := by
  have whole := h.right.whole
  rw [h.right.isBoundary_iff, h.kind, h.bytes]
  rw [h.kind, h.bytes] at whole
  exact ((h.left.isBoundary_iff i).1 hi).append h.left.whole whole

theorem cut_like (h : v.GrownBy q w) (le : i ≤ v.size) : (v.cut i).1.Like True (w.cut i).1 := by
  intro _
  have size := h.size_eq
  have bytes : (v.cut i).1.bytes = (w.cut i).1.bytes := by
    rw [h.left.cut_head_bytes le, h.right.cut_head_bytes (by omega), h.bytes,
      List.take_append_of_le_length (by rw [h.left.length_bytes]; exact le)]
  rw [h.left.cut_eq, h.right.cut_eq] at bytes ⊢
  exact ⟨h.offset.symm, rfl, rfl, h.kind.symm, bytes⟩

/-! ## What is found stays found -/

theorem byteIndex? (h : v.GrownBy q w) {count : Nat} (hi : v.byteIndex? count = some i) :
    w.byteIndex? count = some i := by
  have size := h.size_eq
  unfold View.byteIndex? at hi ⊢
  rw [h.left.unstray, h.left.extent_eq] at hi
  rw [h.right.unstray, h.right.extent_eq, h.kind]
  cases kind : v.kind with
  | bytes =>
    simp only [kind, Number.le_ofNat, decide_eq_true_eq, Option.ite_none_right_eq_some] at hi ⊢
    exact ⟨by omega, hi.2⟩
  | text =>
    simp only [kind, ahead_eq, Utf8.charsLength?_take (Nat.le_refl _)] at hi ⊢
    rw [h.bytes]
    exact Utf8.charsLength?_append hi q

theorem firstWhere? (h : v.GrownBy q w) {stops : Nat → Bool} {t : Nat}
    (hi : v.firstWhere? stops = some (i, t)) : w.firstWhere? stops = some (i, t) := by
  unfold View.firstWhere? at hi ⊢
  rw [h.left.unstray] at hi
  rw [h.right.unstray, h.kind, h.bytes]
  cases kind : v.kind with
  | bytes =>
    simp only [kind] at hi ⊢
    obtain ⟨j, found, same⟩ := Option.map_eq_some_iff.1 hi
    obtain ⟨inside, -⟩ := List.findIdx?_eq_some_iff_getElem.1 found
    rw [Pattern.findIdx?_append_of_eq_some found, Option.map_some, ← same,
      List.getD_append _ _ _ _ inside]
  | text =>
    simp only [kind] at hi ⊢
    split at hi
    · rename_i scanned
      rw [Utf8.scanTo_append_of_ok scanned]
      exact hi
    · contradiction

theorem locate? (h : v.GrownBy q w) {p : Pattern} (hp : p.Plain) {place : Nat × Nat}
    (found : v.locate? p = some place) : w.locate? p = some place := by
  unfold View.locate? at found ⊢
  obtain ⟨⟨index, length⟩, search, tested⟩ := Option.bind_eq_some_iff.1 found
  rw [h.bytes, hp.find?_append search, Option.bind_some]
  simp only at tested ⊢
  split at tested
  · split at tested
    · contradiction
    · rename_i start stop _ _ boundaries
      simp only [Bool.or_eq_true, Bool.not_eq_true', not_or, Bool.not_eq_false,
        Bool.not_eq_true] at boundaries
      obtain ⟨⟨whole, before⟩, after⟩ := boundaries
      cases tested
      simp only [*, h.isBoundary before, h.isBoundary after]
      rfl
  · contradiction

end GrownBy

/-! ## What the bound of a head tells -/

/-- A closed head is cut off again however the view grows, and an open one is all of the view. -/
structure BoundTells (call : View → Except Failure (View × View)) (v head : View) : Prop where
  final : head.bound = .fullyBounded → ∀ q w, v.GrownBy q w →
    ∃ head' tail', call w = .ok (head', tail') ∧ head.Like True head'
  all : head.bound ≠ .fullyBounded → head = { v with kind := head.kind }

section

variable {call : View → Except Failure (View × View)} {head tail : View} {mode : Mode}
  {op : Operation}

theorem Sound.boundTells_cut (h : v.Sound) (le : i ≤ v.bytes.length)
    (again : ∀ q w, v.GrownBy q w → ∃ tail', call w = .ok ((w.cut i).1, tail')) :
    BoundTells call v (v.cut i).1 := by
  rw [h.length_bytes] at le
  refine ⟨fun _ q w grown => ?_, fun open' => absurd (v.cut_head i) open'⟩
  obtain ⟨tail', cut⟩ := again q w grown
  exact ⟨_, tail', cut, grown.cut_like le⟩

theorem boundTells_of_all (open' : v.bound = .startBounded) (k : Kind) :
    BoundTells call v { v with kind := k } := by
  refine ⟨fun closed => ?_, fun _ => rfl⟩
  rw [open'] at closed
  contradiction

theorem Sound.boundTells_splitAt (h : v.Sound) {n : Number}
    (cut : v.splitAt mode n op = .ok (head, tail)) :
    BoundTells (fun w => w.splitAt mode n op) v head := by
  unfold View.splitAt at cut
  split at cut
  · rename_i found
    cases cut
    obtain ⟨i, place, same⟩ := Option.map_eq_some_iff.1 found
    obtain ⟨count, number, index⟩ := Option.bind_eq_some_iff.1 place
    obtain rfl : (v.cut i).1 = head := congrArg Prod.fst same
    refine h.boundTells_cut (h.boundary_of_byteIndex? index).le fun q w grown => ⟨(w.cut i).2, ?_⟩
    simp [View.splitAt, splitAt?, number, grown.byteIndex? index]
  · contradiction

theorem Sound.boundTells_splitAtByte (h : v.Sound) {n : Number}
    (cut : v.splitAtByte mode n op = .ok (head, tail)) :
    BoundTells (fun w => w.splitAtByte mode n op) v head := by
  unfold View.splitAtByte at cut
  split at cut
  · contradiction
  · split at cut
    · rename_i i found
      obtain ⟨number, boundary⟩ := Option.filter_eq_some_iff.1 found
      obtain rfl := Number.eq_ofNat_of_toNat? number
      obtain rfl : (v.cut i).1 = head := congrArg Prod.fst (Except.ok.inj cut)
      have le := ((h.isBoundary_iff i).1 boundary).le
      refine h.boundTells_cut le fun q w grown => ⟨(w.cut i).2, ?_⟩
      rw [h.length_bytes] at le
      have size := grown.size_eq
      unfold View.splitAtByte
      rw [if_neg, Number.toNat?_ofNat, Option.filter_some_pos (grown.isBoundary boundary)]
      rw [grown.right.extent_eq, Number.lt_ofNat, decide_eq_true_eq]
      omega
    · contradiction

theorem Sound.boundTells_splitPrefix (h : v.Sound) {literal : List UInt8}
    (cut : v.splitPrefix mode literal op = .ok (head, tail)) :
    BoundTells (fun w => w.splitPrefix mode literal op) v head := by
  unfold View.splitPrefix splitPrefix? hasPrefix at cut
  split at cut
  · rename_i found
    cases cut
    split at found
    · rename_i starts
      obtain rfl : (v.cut literal.length).1 = head := congrArg Prod.fst (Option.some.inj found)
      rw [List.isPrefixOf_iff_prefix] at starts
      refine h.boundTells_cut starts.length_le fun q w grown => ⟨(w.cut literal.length).2, ?_⟩
      have starts' : literal.isPrefixOf w.bytes = true := by
        rw [List.isPrefixOf_iff_prefix, grown.bytes]
        exact starts.trans (List.prefix_append _ _)
      simp [View.splitPrefix, splitPrefix?, hasPrefix, starts']
    · contradiction
  · contradiction

theorem Sound.boundTells_atMatch (h : v.Sound) {p : Pattern} (hp : p.Plain)
    (rest : View → Nat × Nat → View)
    (found : ∀ u place, u.locate? p = some place → call u = .ok ((u.cut place.1).1, rest u place))
    (missing : v.locate? p = none → ∃ e, call v = .error e) (cut : call v = .ok (head, tail)) :
    BoundTells call v head := by
  cases search : v.locate? p with
  | none =>
    obtain ⟨e, failed⟩ := missing search
    rw [failed] at cut
    contradiction
  | some place =>
    rw [found v place search] at cut
    obtain rfl : (v.cut place.1).1 = head := congrArg Prod.fst (Except.ok.inj cut)
    refine h.boundTells_cut (h.locate?_boundaries search).1.le fun q w grown =>
      ⟨rest w place, ?_⟩
    exact found w place (grown.locate? hp search)

theorem Sound.boundTells_splitUntil (h : v.Sound) {p : Pattern} (hp : p.Plain)
    (cut : v.splitUntil mode p op = .ok (head, tail)) :
    BoundTells (fun w => w.splitUntil mode p op) v head := by
  refine h.boundTells_atMatch hp (fun u place => (u.cut place.1).2) ?_ ?_ cut
  · intro u place found
    simp [splitUntil_eq, found]
  · intro missing
    simp [splitUntil_eq, missing]

theorem Sound.boundTells_splitUntilConsume (h : v.Sound) {p : Pattern} (hp : p.Plain)
    (cut : v.splitUntilConsume mode p op = .ok (head, tail)) :
    BoundTells (fun w => w.splitUntilConsume mode p op) v head := by
  refine h.boundTells_atMatch hp (fun u place => (u.cut place.2).2) ?_ ?_ cut
  · intro u place found
    simp [splitUntilConsume_eq, found]
  · intro missing
    simp [splitUntilConsume_eq, missing]

theorem Sound.boundTells_splitWhile (h : v.Sound) (open' : v.bound = .startBounded) {p : Pattern}
    (hp : p.Tokenwise) (admissible : p.Admissible v.kind) :
    BoundTells (fun w => .ok (w.splitWhile p)) v (v.splitWhile p).1 := by
  cases rejects : p.reject? v.bytes with
  | none =>
    have all : (v.splitWhile p).1 = { v with kind := v.kind } := by
      simp only [View.splitWhile, rejects, exhausted]
    rw [all]
    exact boundTells_of_all open' v.kind
  | some n =>
    obtain ⟨i, rfl, place⟩ := admissible.respects _ _ h.whole rejects
    have boundary := (h.isBoundary_iff i).2 place
    rw [splitWhile_of_reject? rejects boundary]
    refine h.boundTells_cut place.le fun q w grown => ⟨(w.cut i).2, ?_⟩
    have again : p.reject? w.bytes = some (Number.ofNat i) := by
      rw [grown.bytes]
      exact hp.reject?_append admissible h.whole rejects q
    rw [splitWhile_of_reject? again (grown.isBoundary boundary)]

theorem stopped_eq_ok {α : Type} {check : Check} {t : Nat} {a b : α}
    (h : check.stopped mode v op t a = .ok b) (w : View) {β : Type} (x : β) :
    check.stopped mode w op t x = .ok x := by
  unfold Check.stopped at h ⊢
  split at h
  · contradiction
  · rfl

theorem Sound.boundTells_trySplitWhile (h : v.Sound) (open' : v.bound = .startBounded)
    {check : Check} (cut : v.trySplitWhile mode check op = .ok (head, tail)) :
    BoundTells (fun w => w.trySplitWhile mode check op) v head := by
  unfold View.trySplitWhile at cut
  split at cut
  · obtain rfl : v = head := congrArg Prod.fst (Except.ok.inj cut)
    exact boundTells_of_all open' v.kind
  · rename_i i t found
    obtain rfl : head = (v.cut i).1 := congrArg Prod.fst (eq_of_stopped cut)
    refine h.boundTells_cut (h.boundary_of_firstWhere? found).le fun q w grown => ⟨(w.cut i).2, ?_⟩
    simp only [View.trySplitWhile, grown.firstWhere? found, stopped_eq_ok cut w]

theorem Sound.boundTells_trySplitStrWhile (h : v.Sound) (open' : v.bound = .startBounded)
    {check : Check} (cut : v.trySplitStrWhile mode check op = .ok (head, tail)) :
    BoundTells (fun w => w.trySplitStrWhile mode check op) v head := by
  unfold View.trySplitStrWhile at cut
  split at cut
  · obtain rfl : { v with kind := .text } = head := congrArg Prod.fst (Except.ok.inj cut)
    exact boundTells_of_all open' .text
  · rename_i i c n scanned
    obtain rfl : head = { (v.cut i).1 with kind := .text } := congrArg Prod.fst (eq_of_stopped cut)
    have le : i ≤ v.size := by
      obtain ⟨cs, rest, split, rfl, -⟩ := Utf8.exists_append_of_scanTo scanned
      rw [← h.length_bytes, split, List.length_append]
      omega
    refine ⟨fun _ q w grown => ?_, fun open' => absurd (v.cut_head i) open'⟩
    obtain ⟨offset, size, bound, -, bytes⟩ := grown.cut_like le trivial
    refine ⟨{ (w.cut i).1 with kind := .text }, (w.cut i).2, ?_, fun _ =>
      ⟨offset, size, bound, rfl, bytes⟩⟩
    simp only [View.trySplitStrWhile, grown.bytes, Utf8.scanTo_append_of_ok scanned,
      stopped_eq_ok cut w]
  · contradiction
  · contradiction

end

/-! ## All of the cuts -/

/-- A cut that a caller asks for. -/
inductive Cutting where
  | splitAt (n : Number)
  | splitAtByte (n : Number)
  | splitPrefix (literal : List UInt8)
  | splitUntil (p : Pattern)
  | splitUntilConsume (p : Pattern)
  | splitWhile (p : Pattern)
  | trySplitWhile (check : Check)
  | trySplitStrWhile (check : Check)

namespace Cutting

def run (mode : Mode) (op : Operation) : Cutting → View → Except Failure (View × View)
  | splitAt n, v => v.splitAt mode n op
  | splitAtByte n, v => v.splitAtByte mode n op
  | splitPrefix literal, v => v.splitPrefix mode literal op
  | splitUntil p, v => v.splitUntil mode p op
  | splitUntilConsume p, v => v.splitUntilConsume mode p op
  | splitWhile p, v => .ok (v.splitWhile p)
  | trySplitWhile check, v => v.trySplitWhile mode check op
  | trySplitStrWhile check, v => v.trySplitStrWhile mode check op

def Plain (k : Kind) : Cutting → Prop
  | splitUntil p => p.Plain
  | splitUntilConsume p => p.Plain
  | splitWhile p => p.Tokenwise ∧ p.Admissible k
  | _ => True

end Cutting

/-- Whatever cut succeeds on a view of which more may follow, its head is marked for what it is. If
the head is closed, the same cut succeeds on each view that goes on from this one, with a head of
the same range, bytes and bound. If it is not, the head is all of the view. -/
theorem closed_heads_are_final {v : View} (h : v.Sound) (open' : v.bound = .startBounded)
    {c : Cutting} (plain : c.Plain v.kind) {mode : Mode} {op : Operation} {head tail : View}
    (cut : c.run mode op v = .ok (head, tail)) :
    (head.bound = .fullyBounded → ∀ q w, v.GrownBy q w →
      ∃ head' tail', c.run mode op w = .ok (head', tail') ∧ head.Like True head') ∧
    (head.bound ≠ .fullyBounded → head = { v with kind := head.kind }) := by
  have tells : BoundTells (c.run mode op) v head := by
    cases c with
    | splitAt n => exact h.boundTells_splitAt cut
    | splitAtByte n => exact h.boundTells_splitAtByte cut
    | splitPrefix literal => exact h.boundTells_splitPrefix cut
    | splitUntil p => exact h.boundTells_splitUntil plain cut
    | splitUntilConsume p => exact h.boundTells_splitUntilConsume plain cut
    | splitWhile p =>
      obtain rfl : (v.splitWhile p).1 = head := congrArg Prod.fst (Except.ok.inj cut)
      exact h.boundTells_splitWhile open' plain.1 plain.2
    | trySplitWhile check => exact h.boundTells_trySplitWhile open' cut
    | trySplitStrWhile check => exact h.boundTells_trySplitStrWhile open' cut
  exact ⟨tells.final, tells.all⟩

theorem closed_heads_are_final_before_comma :
    let v := ofSource (.ofBytes 0 [0x68, 0x69, 0x2c]) .bytes
    let c := Cutting.trySplitWhile fun n => .ok (n != 0x2c)
    v.Sound ∧ v.bound = .startBounded ∧ c.Plain v.kind ∧
      c.run .root .splitWhile v = .ok (v.cut 2) ∧ (v.cut 2).1.bound = .fullyBounded ∧
      ∀ q w, v.GrownBy q w → ∃ head' tail', c.run .root .splitWhile w = .ok (head', tail') ∧
        (v.cut 2).1.Like True head' := by
  intro v c
  have sound : v.Sound := ofBytes_sound 0 trivial
  have cut : c.run .root .splitWhile v = .ok (v.cut 2) := by rfl
  have closed : (v.cut 2).1.bound = .fullyBounded := rfl
  refine ⟨sound, rfl, trivial, cut, closed, ?_⟩
  exact (closed_heads_are_final sound rfl (c := c) trivial cut).1 closed

end View
end Untrusted
