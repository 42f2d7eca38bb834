import Evolution.Program.Blend
import Evolution.Proofs.Binary.Interpolation
import Evolution.Proofs.Decimal.ReadBack
import Evolution.Proofs.Literal.Bounds
import Evolution.Proofs.Literal.Builtin

/-! Usable literals. The blend of two texts that a built-in type reads is a text that it reads, unless
they are floats so far apart that their difference has no room among the floats: the text of such a
blend is not read, whatever the words. -/

namespace Evolution

open Draw

/-- Two floats whose difference has no room among the finite ones. -/
def Value.FarApart (x y : Value) : Prop :=
  ∃ f g a b, x = .float f ∧ y = .float g ∧ Binary.number? f = some a ∧ Binary.number? g = some b ∧
    Binary.room ≤ |b - a|

/-- Two integers between which the words stand for none: all that may be looked at are turned down. -/
def Value.Stalls (x y : Value) (words : Words) (position : Nat) : Prop :=
  ∃ n m, x = .int n ∧ y = .int m ∧
    ∀ k ≤ words.patience, ¬Kept (span (min n m) (max n m)) (words (position + k))

/-- What the blend of two texts comes to that are read as these values: a text, unless the words do not
serve, and one that is usable as well, unless the values are floats far apart. -/
structure UsableBlend (blend : Draw String) (usable : String → Prop) (x y : Value) (words : Words)
    (position : Nat) : Prop where
  ends : (∃ text next, blend.runFrom words position = .ok (text, next)) ∨
    blend.runFrom words position = .error .stalled ∧ x.Stalls y words position
  usable_iff : ∀ text next, blend.runFrom words position = .ok (text, next) →
    (usable text ↔ ¬x.FarApart y)

theorem UsableBlend.of_ok {blend : Draw String} {usable : String → Prop} {x y : Value} {words : Words}
    {position next : Nat} {text : String} (run : blend.runFrom words position = .ok (text, next))
    (good : usable text ↔ ¬x.FarApart y) : UsableBlend blend usable x y words position := by
  refine ⟨.inl ⟨text, next, run⟩, fun text' next' run' => ?_⟩
  obtain ⟨rfl, -⟩ := Prod.mk.inj (Except.ok.inj (run.symm.trans run'))
  exact good

namespace LiteralType

variable {type : LiteralType} {a b text : String} {x y : Value} {words : Words} {position : Nat}

theorem readFloat?_write (z : Float) :
    readFloat? (Decimal.write .literal z) = Decimal.readFloat? (Decimal.write .literal z).toList := by
  obtain ⟨filled, plain⟩ := Decimal.isNumeral_write .literal z
  rw [readFloat?, (Text.isFramed_of_isPlain filled plain).trim_eq]

/-- The text of a float is read exactly if the float is finite. -/
theorem isSome_read?_write (z : Float) :
    (float.read? (Decimal.write .literal z)).isSome = z.isFinite := by
  cases finite : z.isFinite with
  | true =>
    obtain ⟨y, read, finite⟩ := Decimal.exists_readFloat?_write .literal finite
    simp [float, readFloat?_write, read, finite]
  | false =>
    change z.toModel.unpack.isFinite = false at finite
    have texts : Decimal.write .literal z ∈ ["NaN", "inf", "-inf"] := by
      unfold Decimal.write
      cases unpacked : z.toModel.unpack with
      | notANumber => decide
      | infinity s => cases s <;> decide
      | zero s => rw [unpacked] at finite; cases finite
      | finite s m e pos => rw [unpacked] at finite; cases finite
    have unread : ∀ text ∈ ["NaN", "inf", "-inf"], (float.read? text).isSome = false := by
      decide +kernel
    exact unread _ texts

theorem read?_float_eq_some (h : float.read? text = some x) :
    ∃ f, x = .float f ∧ (readFloat? text).filter (·.isFinite) = some f ∧ f.isFinite = true := by
  obtain ⟨f, read, rfl⟩ := Option.map_eq_some_iff.mp h
  exact ⟨f, rfl, read, (Option.filter_eq_some_iff.mp read).2⟩

theorem farApart_float_iff {f g : Float} {p q : ℚ} (first : Binary.number? f = some p)
    (second : Binary.number? g = some q) :
    (Value.float f).FarApart (.float g) ↔ Binary.room ≤ |q - p| := by
  constructor
  · rintro ⟨_, _, p', q', ⟨⟩, ⟨⟩, first', second', apart⟩
    obtain rfl := Option.some.inj (first.symm.trans first')
    obtain rfl := Option.some.inj (second.symm.trans second')
    exact apart
  · exact fun apart => ⟨f, g, p, q, rfl, rfl, first, second, apart⟩

theorem usableBlend_float (first : float.read? a = some x) (second : float.read? b = some y) :
    UsableBlend (float.blend a b) (float.read? · |>.isSome) x y words position := by
  obtain ⟨f, rfl, read, finite⟩ := read?_float_eq_some first
  obtain ⟨g, rfl, read', finite'⟩ := read?_float_eq_some second
  obtain ⟨p, hp⟩ := Binary.isFinite_iff.mp finite
  obtain ⟨q, hq⟩ := Binary.isFinite_iff.mp finite'
  have run : (float.blend a b).runFrom words position =
      .ok (Decimal.write .literal (f + fractionOf (words position) * (g - f)), position + 1) := by
    simp only [float, read, read']
    rfl
  refine .of_ok run ?_
  rw [isSome_read?_write, Binary.isFinite_interpolation_iff hp hq (fractional_fractionOf _),
    farApart_float_iff hp hq, not_le]

/-- Two values of which one is no float. -/
theorem not_farApart (h : ∀ f, x ≠ .float f) : ¬x.FarApart y := by
  rintro ⟨f, _, _, _, isFloat, -⟩
  exact h f isFloat

theorem usableBlend_int (first : int.read? a = some x) (second : int.read? b = some y) :
    UsableBlend (int.blend a b) (int.read? · |>.isSome) x y words position := by
  obtain ⟨n, read, rfl⟩ := Option.map_eq_some_iff.mp first
  obtain ⟨m, read', rfl⟩ := Option.map_eq_some_iff.mp second
  have blended : int.blend a b = intBetween n m := by simp only [int, read, read']
  have samples := samplesBetween n m
  rw [blended]
  cases run : (intBetween n m).runFrom words position with
  | ok made =>
    obtain ⟨text, next⟩ := made
    obtain ⟨k, -, -, sampled, -⟩ := (samples.ok_iff words position text next).mp run
    obtain ⟨-, z, read, -⟩ := samples.within (words (position + k))
    refine .of_ok run (iff_of_true ?_ (not_farApart ?_))
    · rw [sampled, read]
      rfl
    · rintro f ⟨⟩
  | error cause =>
    obtain ⟨rfl, rejected⟩ := (samples.error_iff words position cause).mp run
    refine ⟨.inr ⟨run, n, m, rfl, rfl, rejected⟩, fun text next made => ?_⟩
    cases run.symm.trans made

theorem usableBlend_either {read? : String → Option Value} (first : read? a = some x)
    (second : read? b = some y) (other : ∀ f, x ≠ .float f) :
    UsableBlend (either a b) (read? · |>.isSome) x y words position := by
  have even : (0 ≤ Float.ofScientific 5 true 1 && Float.ofScientific 5 true 1 < 1) = true := by
    decide +kernel
  obtain ⟨heads, run⟩ : ∃ heads : Bool, (either a b).runFrom words position =
      .ok (if heads then a else b, position + 1) := by
    rw [either, chance, if_pos even]
    exact ⟨_, rfl⟩
  refine .of_ok run (iff_of_true ?_ (not_farApart other))
  cases heads with
  | true => exact Option.isSome_of_eq_some first
  | false => exact Option.isSome_of_eq_some second

theorem usableBlend (builtin : type ∈ builtins) (first : type.read? a = some x)
    (second : type.read? b = some y) :
    UsableBlend (type.blend a b) (type.read? · |>.isSome) x y words position := by
  simp only [builtins, List.mem_cons, List.not_mem_nil, or_false] at builtin
  obtain rfl | rfl | rfl | rfl := builtin
  · exact usableBlend_int first second
  · exact usableBlend_float first second
  · refine usableBlend_either first second ?_
    rintro f rfl
    simp only [bool] at first
    split at first <;> cases first
  · refine usableBlend_either first second ?_
    rintro f rfl
    simp only [code] at first
    split at first <;> cases first

end LiteralType

namespace Registry

variable {types : Registry} {tag a b text : String} {x y : Value}

theorem read_eq_ok_iff : types.read tag text = .ok x ↔
    ∃ type, types.types.get? tag = some type ∧ type.read? text = some x := by
  unfold read
  cases types.types.get? tag with
  | none => simp
  | some type => cases read : type.read? text <;> simp [read]

/-- The text is that of a value, which a program that holds it goes on with. -/
def Usable (types : Registry) (tag text : String) : Prop := ∃ x, types.read tag text = .ok x

theorem usable_iff {type : LiteralType} (held : types.types.get? tag = some type) :
    types.Usable tag text ↔ (type.read? text).isSome = true := by
  simp [Usable, read_eq_ok_iff, held, Option.isSome_iff_exists]

/-- The blend of two usable texts of a built-in type is usable, and so is the literal that is blended of
two literals, exactly if the values are not floats far apart. -/
theorem OfBuiltins.usable_blend_iff (builtins : types.OfBuiltins) (first : types.read tag a = .ok x)
    (second : types.read tag b = .ok y) (words : Words) (position : Nat) :
    UsableBlend (types.blend tag a b) (types.Usable tag) x y words position ∧
      ∀ root next, ((Point.literal ⟨tag, a⟩).blend types (.literal ⟨tag, b⟩)).runFrom words position =
        .ok (root, next) → ∃ text, root = .literal ⟨tag, text⟩ ∧
          (types.Usable tag text ↔ ¬x.FarApart y) := by
  obtain ⟨type, held, read⟩ := read_eq_ok_iff.mp first
  obtain ⟨type', held', read'⟩ := read_eq_ok_iff.mp second
  obtain rfl := Option.some.inj (held.symm.trans held')
  have blended : UsableBlend (types.blend tag a b) (types.Usable tag) x y words position := by
    have usable : types.Usable tag = fun text => (type.read? text).isSome = true :=
      funext fun text => propext (usable_iff held)
    have found : types.blend tag a b = type.blend a b := by simp only [blend, held]
    rw [usable, found]
    exact LiteralType.usableBlend (builtins tag type held).2 read read'
  refine ⟨blended, fun root next run => ?_⟩
  rw [Point.blend, if_pos rfl, runFrom_bind_eq_ok_iff] at run
  obtain ⟨text, between, run, made⟩ := run
  obtain ⟨rfl, -⟩ := Prod.mk.inj (Except.ok.inj made)
  exact ⟨text, rfl, blended.usable_iff text between run⟩

/-- The same number with both signs: half of the way between the two, and of the way from one to zero. -/
theorem usable_blend_iff_of_opposites :
    let low : Value := .float (-Decimal.nearest 17 307)
    let high : Value := .float (Decimal.nearest 17 307)
    let words : Words := ⟨fun _ => 0x8000000000000000, 0⟩
    (builtin.read "float" "-1.7e308" = .ok low ∧ builtin.read "float" " 1.7e308" = .ok high ∧
      builtin.read "float" "0" = .ok (.float 0)) ∧
    UsableBlend (builtin.blend "float" "-1.7e308" " 1.7e308") (builtin.Usable "float") low high
      words 2 ∧
    low.FarApart high ∧ ¬low.FarApart (.float 0) := by
  intro low high words
  have first : builtin.read "float" "-1.7e308" = .ok low := by decide +kernel
  have second : builtin.read "float" " 1.7e308" = .ok high := by decide +kernel
  have third : builtin.read "float" "0" = .ok (.float 0) := by decide +kernel
  obtain ⟨far, -⟩ := ofBuiltins_builtin.usable_blend_iff first second words 2
  obtain ⟨near, -⟩ := ofBuiltins_builtin.usable_blend_iff first third words 2
  refine ⟨⟨first, second, third⟩, far, ?_, ?_⟩
  · have infinite :
        (builtin.blend "float" "-1.7e308" " 1.7e308").runFrom words 2 = .ok ("inf", 3) := by
      decide +kernel
    have unread : builtin.read "float" "inf" = .error (.invalid "float" "inf") := by decide +kernel
    by_contra close
    obtain ⟨x, read⟩ := (far.usable_iff _ _ infinite).mpr close
    cases unread.symm.trans read
  · have half : (builtin.blend "float" "-1.7e308" "0").runFrom words 2 = .ok ("-8.5e307", 3) := by
      decide +kernel
    have read : builtin.read "float" "-8.5e307" = .ok (.float (-Decimal.nearest 85 306)) := by
      decide +kernel
    exact (near.usable_iff _ _ half).mp ⟨_, read⟩

/-- The two are read, but on words that stand for the first their blend is a text that is not: their
difference has no room, and zero of it is not a number. -/
theorem not_usable_blend_opposites :
    builtin.read "float" "-1.7e308" = .ok (.float (-Decimal.nearest 17 307)) ∧
    builtin.read "float" "1.7e308" = .ok (.float (Decimal.nearest 17 307)) ∧
    (builtin.blend "float" "-1.7e308" "1.7e308").runFrom ⟨fun _ => 0, 0⟩ 0 = .ok ("NaN", 1) ∧
    builtin.read "float" "NaN" = .error (.invalid "float" "NaN") := by
  refine ⟨?_, ?_, ?_, ?_⟩ <;> decide +kernel

end Registry

end Evolution
