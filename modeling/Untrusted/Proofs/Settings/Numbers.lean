import Mathlib
import Untrusted.Display.Report
import Untrusted.Proofs.Rounding
import Untrusted.Proofs.Settings.Variables

/-!
# Numbers that variables give

A variable with the digits of a number gives this number, unless it is zero or one: their digits
stand for booleans, and a caller that asks for a number gets the fallback. So reports show as many
elements as a variable asks for, but from two on.
-/

namespace Untrusted

namespace Settings

/-! ## Texts of numbers -/

theorem ofDecimal_ofNat {n : Nat} (exact : n ≤ Number.wholeLimit) :
    Number.ofDecimal false n 0 = .ofNat n := by
  by_cases zero : n = 0
  · subst zero
    rfl
  · have large : ¬ (n.log2 : Int) + 3 * 0 < -1100 := by omega
    simp only [Number.ofDecimal, if_neg zero, if_neg large]
    simpa using Number.round_ofNat exact

theorem toList_toString (n : Nat) : (toString n).toList = Nat.toDigits 10 n := by
  rw [Nat.toString_eq_ofList_toDigits, String.toList_ofList]

theorem foldl_toDigits (n : Nat) :
    (Nat.toDigits 10 n).foldl (fun n d => n * 10 + (d.toNat - 48)) 0 = n := by
  have value : Nat.ofDigitChars 10 (Nat.toDigits 10 n) 0 = n := Nat.ofDigitChars_ten_toDigits
  rw [Nat.ofDigitChars_eq_foldl] at value
  simpa only [Nat.mul_comm, Char.reduceToNat] using value

theorem isDigit_toDigits (n : Nat) : (Nat.toDigits 10 n).all Char.isDigit :=
  List.all_eq_true.2 fun _ hd => Nat.isDigit_of_mem_toDigits (by decide) (by decide) hd

theorem toString_ne_toString {m n : Nat} (h : m ≠ n) : toString m ≠ toString n :=
  fun same => h (Nat.repr_inj.1 same)

theorem toString_ne_of_not_digits {text : String} (other : text.toList.all Char.isDigit = false)
    (n : Nat) : toString n ≠ text := by
  rintro rfl
  rw [toList_toString, isDigit_toDigits] at other
  exact absurd other (by decide)

/-- The digits of a number stand for it from two on, and before for a boolean. -/
theorem valueOfText_toString {n : Nat} (exact : n ≤ Number.wholeLimit) :
    valueOfText (toString n) =
      if n < 2 then .bool (decide (n = 1)) else .number (.ofNat n) := by
  by_cases small : n < 2
  · obtain rfl | rfl : n = 0 ∨ n = 1 := by omega
    · rfl
    · rfl
  · have one : toString n ≠ "1" := toString_ne_toString (by omega : n ≠ 1)
    have zero : toString n ≠ "0" := toString_ne_toString (by omega : n ≠ 0)
    have yes : toString n ≠ "true" := toString_ne_of_not_digits (by decide) n
    have no : toString n ≠ "false" := toString_ne_of_not_digits (by decide) n
    have empty : toString n ≠ "" := by
      intro same
      have digits := toList_toString n
      rw [same] at digits
      exact Nat.toDigits_ne_nil digits.symm
    rw [valueOfText, if_neg (not_or.2 ⟨one, yes⟩),
      if_neg (not_or.2 ⟨zero, not_or.2 ⟨no, empty⟩⟩), if_neg small]
    simp only [toList_toString, isDigit_toDigits, if_true, foldl_toDigits, ofDecimal_ofNat exact]

theorem getNumber?_of_get? {settings : Settings} {path : String} {n : Nat}
    (exact : n ≤ Number.wholeLimit) (h : settings.get? path = some (valueOfText (toString n))) :
    settings.getNumber? path = if n < 2 then none else some (.ofNat n) := by
  rw [valueOfText_toString exact] at h
  rw [getNumber?, h]
  split_ifs <;> rfl

end Settings

/-! ## How many elements are shown -/

namespace Display

/-- Options that show at most as many elements, or as many as the settings ask for. -/
def Options.showing (o : Options) (limit : Option Number) : Options :=
  { o with maxElements := limit }

structure Alike (a b : Settings) : Prop where
  strHint : a.getBoolean "display.strHint" false = b.getBoolean "display.strHint" false
  banner : a.getBoolean "display.banner" false = b.getBoolean "display.banner" false
  colors : a.getBoolean "display.colors" false = b.getBoolean "display.colors" false

variable {a b : Settings} {limit : Number} (alike : Alike a b)
  (asked : (a.getNumber? "display.maxElements").getD 40 = limit) (o : Options)

include alike asked

theorem resolve_showing :
    (o.showing none).resolve a = (o.showing (some limit)).resolve b := by
  simp only [Options.resolve, Options.showing, Option.getD_none, Option.getD_some, asked,
    alike.strHint]

theorem renderBytes_showing (isText : Bool) (bytes : List UInt8) :
    renderBytes a (o.showing none) isText bytes =
      renderBytes b (o.showing (some limit)) isText bytes := by
  simp only [renderBytes, resolve_showing alike asked o]

theorem renderView_showing (v : View) :
    renderView a (o.showing none) v = renderView b (o.showing (some limit)) v :=
  renderBytes_showing alike asked o _ _

theorem renderSpan_showing (v : View) (start stop : Number) :
    renderSpan a (o.showing none) v start stop =
      renderSpan b (o.showing (some limit)) v start stop := by
  simp only [renderSpan, resolve_showing alike asked o]

theorem placeLines_showing (colors : Bool) (d : Details) :
    placeLines a (o.showing none) colors d = placeLines b (o.showing (some limit)) colors d := by
  have hinted (hint : Bool) :
      renderBytes a { o.showing none with strHint := some hint } false d.span.bytes =
        renderBytes b { o.showing (some limit) with strHint := some hint } false d.span.bytes :=
    renderBytes_showing alike asked { o with strHint := some hint } false d.span.bytes
  have strHint : (o.showing none).strHint = (o.showing (some limit)).strHint := rfl
  unfold placeLines
  cases d.span.rangeOf? d.input.span with
  | none => simp only [hinted, renderView_showing alike asked o, strHint]
  | some range => simp only [renderSpan_showing alike asked o]

theorem reportLines_showing (env : Settings.Environment) (d : Details) :
    reportLines a env (o.showing none) d = reportLines b env (o.showing (some limit)) d := by
  have banner : (o.showing none).banner.getD (a.getBoolean "display.banner" false) =
      (o.showing (some limit)).banner.getD (b.getBoolean "display.banner" false) :=
    congrArg o.banner.getD alike.banner
  have colors : (o.showing none).colors.getD (a.getBoolean "display.colors" false) =
      (o.showing (some limit)).colors.getD (b.getBoolean "display.colors" false) :=
    congrArg o.colors.getD alike.colors
  unfold reportLines
  rw [banner, colors]
  cases d.expected <;>
    simp only [placeLines_showing alike asked o, renderView_showing alike asked o]

theorem renderDetails_showing (env : Settings.Environment) (d : Details) :
    renderDetails a env (o.showing none) d = renderDetails b env (o.showing (some limit)) d := by
  rw [renderDetails, renderDetails, reportLines_showing alike asked o]

end Display

namespace Settings

/-- A variable with the digits of a whole number gives the number at its path, whatever settings
file is found, unless a later variable or what the program sets leads to the path, on its way or
below it. Just zero and one are not given: there a caller gets its fallback. So everything is
rendered as if the number that the variable gives, or for zero and one the default, were asked
for. -/
theorem numeric_variable_counts_from_two (path : CamelPath) {n : Nat} (exact : n < 2 ^ 53)
    (explorer : Explorer) (start : Option String) (before : Environment) {after : Environment}
    (later : ∀ y ∈ after, ∀ place ∈ pathOf? y, Apart place path.names) {calls : List Fields}
    (kept : ∀ values ∈ calls, overrides values path.names = false) :
    let env := before ++ (path.variableName, toString n) :: after
    let settled := (calls.foldl Configuration.set ⟨explorer, start, env, none⟩).settings
    (∀ fallback : Number,
      (settled.getNumber? path.dotted).getD fallback = if n < 2 then fallback else n) ∧
    (path.names = ["display", "maxElements"] → ∀ other, Display.Alike settled other → ∀ o,
      let asked := Display.Options.showing o none
      let given := Display.Options.showing o (some (if n < 2 then 40 else n))
      (∀ isText bytes, Display.renderBytes settled asked isText bytes =
        Display.renderBytes other given isText bytes) ∧
      (∀ v, Display.renderView settled asked v = Display.renderView other given v) ∧
      (∀ v start stop, Display.renderSpan settled asked v start stop =
        Display.renderSpan other given v start stop) ∧
      ∀ terminal d, Display.renderDetails settled terminal asked d =
        Display.renderDetails other terminal given d) := by
  intro env settled
  have held : ownAt? settled.tree (segments path.dotted) =
      some (.leaf (valueOfText (toString n))) := by
    rw [path.segments_dotted]
    exact ownAt?_settings (pathOf?_variableName path (toString n)) later kept explorer start
  have limit : n ≤ Number.wholeLimit := by
    rw [Number.wholeLimit_eq]
    omega
  have number : settled.getNumber? path.dotted = if n < 2 then none else some (.ofNat n) :=
    getNumber?_of_get? limit (get?_of_ownAt? held)
  have read (fallback : Number) :
      (settled.getNumber? path.dotted).getD fallback = if n < 2 then fallback else n := by
    rw [number]
    split_ifs <;> rfl
  refine ⟨read, fun names other alike o => ?_⟩
  have dotted : path.dotted = "display.maxElements" := by
    rw [CamelPath.dotted, names]
    decide
  have asked := dotted ▸ read 40
  exact ⟨Display.renderBytes_showing alike asked o, Display.renderView_showing alike asked o,
    Display.renderSpan_showing alike asked o, Display.renderDetails_showing alike asked o⟩

/-- Twenty elements, where other variables and the program give other settings of the display. -/
theorem numeric_variable_counts_from_two_twenty :
    let after := [("PATH", "/bin"), ("CAUTION_DISPLAY__BANNER", "1")]
    let env := [("CAUTION_DISPLAY", "x")] ++ (maxElementsPath.variableName, toString 20) :: after
    let calls := [[("display", .object [("strHint", .bool true)])]]
    (∀ y ∈ after, ∀ place ∈ pathOf? y, Apart place maxElementsPath.names) ∧
      (∀ values ∈ calls, overrides values maxElementsPath.names = false) ∧
      ∀ explorer start (fallback : Number),
        ((calls.foldl Configuration.set ⟨explorer, start, env, none⟩).settings.getNumber?
          maxElementsPath.dotted).getD fallback = 20 := by
  intro after env calls
  have later : ∀ y ∈ after, ∀ place ∈ pathOf? y, Apart place maxElementsPath.names := by
    decide +kernel
  have kept : ∀ values ∈ calls, overrides values maxElementsPath.names = false := by
    rw [List.forall_mem_singleton]
    decide +kernel
  refine ⟨later, kept, fun explorer start fallback => ?_⟩
  exact (numeric_variable_counts_from_two maxElementsPath (n := 20) (by decide) explorer start
    [("CAUTION_DISPLAY", "x")] later kept).1 fallback

/-- One is not given to a caller that asks for a number, nor are elements shown one at a time. -/
theorem numeric_variable_one_ignored :
    let env := [("CAUTION_DISPLAY__MAX_ELEMENTS", toString 1)]
    let settled := (Configuration.initial (fun _ _ _ => .nothing) env).settings
    (settled.getNumber? "display.maxElements").getD 7 = 7 ∧ (7 : Number) ≠ 1 ∧
      Display.renderBytes settled (.showing .none none) false [0, 1, 2] ≠
        Display.renderBytes settled (.showing .none (some 1)) false [0, 1, 2] := by
  decide +kernel

end Settings
end Untrusted
