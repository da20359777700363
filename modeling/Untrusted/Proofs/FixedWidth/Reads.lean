import Mathlib
import Untrusted.Proofs.Exact
import Untrusted.Proofs.FixedWidth
import Untrusted.Proofs.Reader

/-!
# Reading fixed-width integers

A read of an integer takes as many bytes as reading its bytes one by one, and yields what they write
by their places. Read one after the other, integers come back from the bytes they are written as.
-/

namespace Untrusted

/-! ## Reads one after the other -/

def Read.inTurn {α : Type} : List (Read α) → Read (List α)
  | [] => Read.pure []
  | p :: rest => Read.andThen p fun a => Read.map (a :: ·) (inTurn rest)

theorem Read.inTurn_cons {α : Type} {p : Read α} {rest : List (Read α)} {v w u : View} {a : α}
    {as : List α} (first : p v = ⟨.ok a, w, []⟩) (later : inTurn rest w = ⟨.ok as, u, []⟩) :
    inTurn (p :: rest) v = ⟨.ok (a :: as), u, []⟩ := by
  have result : (p v).result = .ok a := by rw [first]
  rw [inTurn, andThen_ok result, first, Read.map, later]
  rfl

namespace View

variable {v : View} {mode : Mode} {last : Value}

def after (v : View) (n : Nat) : View := { v with offset := v.offset + n, size := v.size - n }

theorem after_after (v : View) (m n : Nat) : (v.after m).after n = v.after (m + n) := by
  simp [after, Nat.add_assoc, Nat.sub_sub]

theorem Sound.after (h : v.Sound) (kind : v.kind = .bytes) {n : Nat} (le : n ≤ v.size) :
    (v.after n).Sound ∧ (v.after n).kind = .bytes ∧ (v.after n).bytes = v.bytes.drop n := by
  have whole : v.kind.Whole (v.bytes.drop n) := by
    rw [kind]
    trivial
  refine ⟨(h.tailOf_shift le whole (fun hb => ?_) id).sound, kind, h.bytes_shift le v.bound⟩
  have empty := h.settled hb
  omega

/-! ## Bytes one by one -/

theorem Sound.readU8_run (h : v.Sound) (kind : v.kind = .bytes) {b : UInt8} {rest : List UInt8}
    (bytes : v.bytes = b :: rest) :
    Action.readU8.run mode last v = ⟨.ok (.number b.toNat), v.after 1, []⟩ := by
  have cut : v.splitFirst mode .readU8 = .ok (.byte b, v.after 1) := by
    rw [splitFirst_eq, h.splitFirst?_bytes kind, bytes, h.cut_eq]
    rfl
  rw [Action.run, Read.map, Read.ofCut_ok cut]
  rfl

theorem Sound.readU8_inTurn (h : v.Sound) (kind : v.kind = .bytes) {n : Nat} (le : n ≤ v.size) :
    Read.inTurn (List.replicate n (Action.readU8.run mode last)) v =
      ⟨.ok ((v.bytes.take n).map fun b => .number b.toNat), v.after n, []⟩ := by
  induction n generalizing v with
  | zero => rfl
  | succ n ih =>
    have length := h.length_bytes
    obtain ⟨b, rest, bytes⟩ := List.exists_cons_of_length_pos (l := v.bytes) (by omega)
    obtain ⟨sound, kind', left⟩ := h.after kind (n := 1) (by omega)
    have short : n ≤ (v.after 1).size := Nat.le_sub_of_add_le le
    have later := ih sound kind' short
    rw [after_after, left, bytes, List.drop_one, List.tail_cons, Nat.add_comm] at later
    rw [List.replicate_succ, bytes, List.take_succ_cons, List.map_cons]
    exact Read.inTurn_cons (h.readU8_run kind bytes) later

/-! ## Numbers -/

section

variable (h : v.Sound) (kind : v.kind = .bytes)

include h kind

theorem Sound.readNum_run (k : NumericKind) (endian : Endian) (le : k.width ≤ v.size) :
    (Action.readNum k endian).run mode last v =
      ⟨.ok (.ofReading (FixedWidth.interpret k (FixedWidth.ofBytes endian (v.bytes.take k.width)))),
        v.after k.width, []⟩ := by
  have cut : v.splitAt mode k.width .readNum = .ok (v.cut k.width) := by
    rw [splitAt_eq, h.splitAt?_bytes kind, Number.toNat?_ofNat, Option.bind_some, if_pos le]
    rfl
  have head : (v.cut k.width).1.bytes = v.bytes.take k.width := by
    rw [h.cut_eq]
    exact bytes_resize le .fullyBounded
  have enough : ¬ (v.bytes.take k.width).length < k.width := by
    rw [List.length_take, h.length_bytes]
    omega
  rw [Action.run, Read.map, Read.ofCut_ok cut, Outcome.map]
  simp only [Except.map, Action.readNumber, head, FixedWidth.decode?, enough, if_false,
    List.take_take, Nat.min_self, Value.ofOption]
  rw [h.cut_eq]
  rfl

theorem Sound.readNum_short (k : NumericKind) (endian : Endian) (short : v.size < k.width) :
    (Action.readNum k endian).run mode last v =
      ⟨.error (mode.raise (v.lengthCause k.width .readNum)), v, []⟩ := by
  have cut : v.splitAt mode k.width .readNum =
      .error (mode.raise (v.lengthCause k.width .readNum)) := by
    rw [splitAt_eq, h.splitAt?_bytes kind, Number.toNat?_ofNat, Option.bind_some,
      if_neg (Nat.not_le.2 short)]
    rfl
  rw [Action.run, Read.map, Read.ofCut_error cut]
  rfl

theorem Sound.requirement_readNum_short (k : NumericKind) (endian : Endian)
    (short : v.size < k.width) (tells : mode.TellsRetry) {e : Failure}
    (failed : ((Action.readNum k endian).run mode last v).result = .error e) :
    (v.bound = .fullyBounded → e.requirement = none) ∧
      (v.bound ≠ .fullyBounded →
        ∃ r, e.requirement = some r ∧ r.count = k.width - v.size) := by
  rw [h.readNum_short kind k endian short] at failed
  cases failed
  have width : k.width ≤ 8 := by cases k <;> decide
  have same : (mode.raise (v.lengthCause k.width .readNum)).requirement =
      if v.bound = .fullyBounded then none else Retry.ofHadAndNeeded? v.size k.width := by
    have cause := h.requirement_lengthCause k.width .readNum
    rw [Number.toNat?_ofNat, Option.bind_some] at cause
    rw [← cause]
    rcases tells with rfl | rfl | rfl <;> rfl
  rw [same]
  refine ⟨fun full => if_pos full, fun moving => ?_⟩
  obtain ⟨r, required, exact⟩ :=
    Retry.exists_ofHadAndNeeded? short (Number.le_greatestWhole (by omega))
  have small : k.width ≤ Number.wholeLimit := by
    rw [Number.wholeLimit_eq]
    omega
  exact ⟨r, by rw [if_neg moving, required], exact small⟩

end

end View

/-! ## Integers one after the other -/

/-- An integer with the kind and the byte order that it is written in. -/
structure WrittenInteger where
  kind : NumericKind
  endian : Endian
  value : Int
  integer : kind.isInteger = true
  holds : kind.Holds value

namespace WrittenInteger

def bytes (i : WrittenInteger) : List UInt8 := FixedWidth.write i.kind i.endian i.value

def read (mode : Mode) (last : Value) (i : WrittenInteger) : Read Value :=
  (Action.readNum i.kind i.endian).run mode last

end WrittenInteger

theorem View.Sound.read_written {v : View} (h : v.Sound) (kind : v.kind = .bytes) {mode : Mode}
    {last : Value} {i : WrittenInteger} {rest : List UInt8} (bytes : v.bytes = i.bytes ++ rest) :
    i.read mode last v = ⟨.ok (i.kind.value i.value), v.after i.bytes.length, []⟩ := by
  have width : i.bytes.length = i.kind.width := FixedWidth.length_write ..
  have enough : i.kind.width ≤ v.size := by
    rw [← h.length_bytes, bytes, List.length_append]
    omega
  have taken : v.bytes.take i.kind.width = i.bytes := by
    rw [bytes, List.take_left' width]
  rw [WrittenInteger.read, h.readNum_run kind i.kind i.endian enough, taken, width,
    NumericKind.ofReading_interpret i.integer, WrittenInteger.bytes,
    NumericKind.integerOf_write i.holds]

theorem View.Sound.read_written_inTurn {v : View} (h : v.Sound) (kind : v.kind = .bytes)
    {mode : Mode} {last : Value} {is : List WrittenInteger} {rest : List UInt8}
    (bytes : v.bytes = is.flatMap WrittenInteger.bytes ++ rest) :
    Read.inTurn (is.map (WrittenInteger.read mode last)) v =
      ⟨.ok (is.map fun i => i.kind.value i.value),
        v.after (is.flatMap WrittenInteger.bytes).length, []⟩ := by
  induction is generalizing v with
  | nil => rfl
  | cons i is ih =>
    rw [List.flatMap_cons, List.append_assoc] at bytes
    have fits : i.bytes.length ≤ v.size := by
      rw [← h.length_bytes, bytes, List.length_append]
      omega
    obtain ⟨sound, kind', left⟩ := h.after kind fits
    rw [bytes, List.drop_left] at left
    have later := ih sound kind' left
    rw [View.after_after] at later
    rw [List.map_cons, List.map_cons, List.flatMap_cons, List.length_append]
    exact Read.inTurn_cons (h.read_written kind bytes) later

/-! ## Reading integers -/

/-- A read of an integer succeeds if and only if as many bytes are left as its kind is wide. It then
yields the integer of the kind that the sum of those bytes by their places is modulo the power of
the width, and stands where reading the bytes one by one does. Otherwise it stands where it did, and
requires what is missing. The little-endian bytes of a number are its big-endian ones from the end,
and a row of written integers is read back to its end. -/
theorem Read.fixed_width_reads_agree {v : View} (sound : v.Sound) (kind : v.kind = .bytes)
    (mode : Mode) (last : Value) :
    (∀ (k : NumericKind) (endian : Endian), k.isInteger = true →
      (k.width ≤ v.size → ∃ (bytes : List UInt8) (rest : View) (z : Int), bytes.length = k.width ∧
        inTurn (List.replicate k.width (Action.readU8.run mode last)) v =
          ⟨.ok (bytes.map fun b => .number b.toNat), rest, []⟩ ∧
        (Action.readNum k endian).run mode last v = ⟨.ok (k.value z), rest, []⟩ ∧
        k.Holds z ∧
        z ≡ ((∑ i, (bytes.get i).toNat *
          FixedWidth.placeValue endian bytes.length i : Nat) : Int) [ZMOD 2 ^ (8 * k.width)]) ∧
      (v.size < k.width → ∃ e, (Action.readNum k endian).run mode last v = ⟨.error e, v, []⟩ ∧
        (mode.TellsRetry →
          (v.bound = .fullyBounded → e.requirement = none) ∧
          (v.bound ≠ .fullyBounded →
            ∃ r, e.requirement = some r ∧ r.count = k.width - v.size))) ∧
      ∀ w : View, w.Sound → w.kind = .bytes → k.width ≤ v.size → k.width ≤ w.size →
        w.bytes.take k.width = (v.bytes.take k.width).reverse →
        ((Action.readNum k .little).run mode last v).result =
          ((Action.readNum k .big).run mode last w).result) ∧
    ∀ is : List WrittenInteger, v.bytes = is.flatMap WrittenInteger.bytes →
      ∃ rest, inTurn (is.map (WrittenInteger.read mode last)) v =
        ⟨.ok (is.map fun i => i.kind.value i.value), rest, []⟩ ∧ rest.isEmpty = true := by
  refine ⟨fun k endian integer => ⟨fun enough => ?_, fun short => ?_, ?_⟩, fun is bytes => ?_⟩
  · have width : (v.bytes.take k.width).length = k.width := by
      rw [List.length_take, sound.length_bytes, Nat.min_eq_left enough]
    have below := FixedWidth.ofBytes_lt endian (v.bytes.take k.width)
    rw [width] at below
    refine ⟨v.bytes.take k.width, v.after k.width,
      k.integerOf (FixedWidth.ofBytes endian (v.bytes.take k.width)), width,
      sound.readU8_inTurn kind enough, ?_, NumericKind.holds_integerOf below, ?_⟩
    · rw [sound.readNum_run kind k endian enough, NumericKind.ofReading_interpret integer]
    · rw [← FixedWidth.ofBytes_eq_sum]
      exact NumericKind.integerOf_modEq k _
  · have failed : (Action.readNum k endian).run mode last v =
        ⟨.error (mode.raise (v.lengthCause k.width .readNum)), v, []⟩ :=
      sound.readNum_short kind k endian short
    refine ⟨_, failed, fun tells => ?_⟩
    exact sound.requirement_readNum_short kind k endian short tells (congrArg Outcome.result failed)
  · intro w sound' kind' enough enough' reversed
    rw [sound.readNum_run kind k .little enough, sound'.readNum_run kind' k .big enough', reversed,
      FixedWidth.ofBytes_little]
  · rw [← List.append_nil (is.flatMap _)] at bytes
    refine ⟨_, sound.read_written_inTurn kind bytes, ?_⟩
    have whole := congrArg List.length bytes
    rw [List.append_nil, sound.length_bytes] at whole
    simp [View.isEmpty, View.after, sound.unstray, whole]

/-- A negative integer with its low byte first and a byte, after another byte of the source. -/
theorem Read.fixed_width_reads_agree_unaligned :
    let v := (View.ofSource (.ofBytes 0 [0x09, 0xfe, 0xff, 0x12]) .bytes).after 1
    let is : List WrittenInteger :=
      [⟨.i16, .little, -2, rfl, by decide⟩, ⟨.u8, .big, 18, rfl, by decide⟩]
    v.Sound ∧ v.kind = .bytes ∧ v.bytes = is.flatMap WrittenInteger.bytes ∧
      (∃ rest, inTurn (is.map (WrittenInteger.read .invalid .absent)) v =
        ⟨.ok [.number (.ofInt (-2)), .number (.ofInt 18)], rest, []⟩ ∧ rest.isEmpty = true) ∧
      v.size < NumericKind.u32.width ∧ v.bound ≠ .fullyBounded ∧
      ∃ e r, (Action.readNum .u32 .big).run .invalid .absent v = ⟨.error e, v, []⟩ ∧
        e.requirement = some r ∧ r.count = 1 := by
  intro v is
  have all : (View.ofSource (.ofBytes 0 [0x09, 0xfe, 0xff, 0x12]) .bytes).Sound :=
    View.ofBytes_sound 0 trivial
  obtain ⟨sound, kind, -⟩ := all.after (n := 1) rfl (by decide)
  have bytes : v.bytes = is.flatMap WrittenInteger.bytes := by decide +kernel
  have short : v.size < NumericKind.u32.width := by decide
  have moving : v.bound ≠ .fullyBounded := by decide
  obtain ⟨numbers, row⟩ := fixed_width_reads_agree sound kind .invalid .absent
  obtain ⟨e, failed, tells⟩ := (numbers .u32 .big rfl).2.1 short
  obtain ⟨r, required, missing⟩ := (tells (.inr (.inr rfl))).2 moving
  exact ⟨sound, kind, bytes, row is bytes, short, moving, e, r, failed, required, missing⟩

end Untrusted
