import Mathlib.Data.List.TakeWhile
import Oxool.Lib.Digits
import Oxool.Net.Http.Transfer

/-!
# Header fields

A client looks the length of the body up among the fields it was sent. A field comes back as it was
set when it is the only one of its name; names are compared without regard to case, and blanks
around names and values are dropped on the way.
-/

set_option autoImplicit false

namespace Oxool.Http

/-! ## Numbers -/

theorem ascii_toString (n : Nat) :
    ascii (toString n) = (Nat.toDigits 10 n).map fun c => UInt8.ofNat c.toNat := by
  rw [ascii, Nat.toString_eq_repr, Nat.toList_repr]

theorem decimal_value : ∀ d < 10, (UInt8.ofNat (Nat.digitChar d).toNat).toNat - 48 = d := by decide

theorem decimal_isDigit : ∀ d < 10, isDigit (UInt8.ofNat (Nat.digitChar d).toNat) = true := by
  decide

theorem hex_value : ∀ d < 16,
    hexDigitFromChar (UInt8.ofNat (Nat.digitChar d).toNat) = some d := by decide

theorem isDigit_of_mem_toString {n : Nat} {b : UInt8} (h : b ∈ ascii (toString n)) :
    isDigit b = true := by
  rw [ascii_toString] at h
  obtain ⟨d, hd, rfl⟩ := mem_toDigits _ (by decide) n b h
  exact decimal_isDigit d hd

theorem digitsValue_toString (n : Nat) : Header.digitsValue (ascii (toString n)) = n := by
  have hall : (ascii (toString n)).takeWhile isDigit = ascii (toString n) :=
    List.takeWhile_eq_self_iff.mpr fun b hb => isDigit_of_mem_toString hb
  rw [Header.digitsValue, hall, ascii_toString]
  exact readDigits_toDigits _ (by decide) decimal_value n

/-! ## Setting and looking up -/

/-- The values of the fields of a name, blanks and case aside. -/
def named (key : Bytes) (fields : List (Bytes × Bytes)) : List Bytes :=
  (fields.filter fun f => iequal (trimmed f.1) key).map fun f => trimmed f.2

theorem named_cons_ne {key : Bytes} {f : Bytes × Bytes} (h : iequal (trimmed f.1) key = false)
    (fields : List (Bytes × Bytes)) : named key (f :: fields) = named key fields := by
  rw [named, List.filter_cons_of_neg (by rw [h]; decide)]
  rfl

theorem named_cons_eq {key : Bytes} {f : Bytes × Bytes} (h : iequal (trimmed f.1) key = true)
    (fields : List (Bytes × Bytes)) :
    named key (f :: fields) = trimmed f.2 :: named key fields := by
  simp only [named, List.filter_cons, h, if_true, List.map_cons]

/-- Setting a field leaves the fields of another name alone. -/
theorem named_setIn_ne {key k : Bytes} (h : iequal (trimmed k) key = false) (v : Bytes)
    (fields : List (Bytes × Bytes)) : named key (Header.setIn k v fields) = named key fields := by
  induction fields with
  | nil => exact named_cons_ne h []
  | cons f fields ih =>
    rw [Header.setIn]
    split
    · rename_i hk
      rw [named_cons_ne (by rw [hk]; exact h), named_cons_ne (by rw [hk]; exact h)]
    · cases hf : iequal (trimmed f.1) key with
      | false => rw [named_cons_ne hf, named_cons_ne hf, ih]
      | true => rw [named_cons_eq hf, named_cons_eq hf, ih]

/-- Setting a field that was not there gives the only one of its name. -/
theorem named_setIn_new {key k : Bytes} (h : iequal (trimmed k) key = true) (v : Bytes)
    {fields : List (Bytes × Bytes)} (hnone : named key fields = []) :
    named key (Header.setIn k v fields) = [trimmed v] := by
  induction fields with
  | nil => exact named_cons_eq h []
  | cons f fields ih =>
    have hf : iequal (trimmed f.1) key = false := by
      cases hf : iequal (trimmed f.1) key with
      | false => rfl
      | true => rw [named_cons_eq hf] at hnone; exact absurd hnone (by simp)
    rw [named_cons_ne hf] at hnone
    rw [Header.setIn, if_neg (fun hk => by rw [hk, h] at hf; exact absurd hf (by decide)),
      named_cons_ne hf, ih hnone]

/-- The first field of a name in a header. -/
def lookup (key : Bytes) (headers : List (Bytes × Bytes)) : Option Bytes :=
  (headers.find? fun f => iequal f.1 key).map Prod.snd

theorem lookup_setIn_ne {key k : Bytes} (h : iequal k key = false) (v : Bytes)
    (headers : List (Bytes × Bytes)) : lookup key (Header.setIn k v headers) = lookup key headers := by
  induction headers with
  | nil => simp [Header.setIn, lookup, h]
  | cons f headers ih =>
    rw [Header.setIn]
    split
    · rename_i hk
      simp [lookup, hk, h]
    · unfold lookup at ih ⊢
      rw [List.find?_cons, List.find?_cons]
      cases iequal f.1 key with
      | true => rfl
      | false => exact ih

theorem lookup_setIn_new {key k : Bytes} (h : iequal k key = true) (v : Bytes)
    {headers : List (Bytes × Bytes)} (hnone : lookup key headers = none) :
    lookup key (Header.setIn k v headers) = some v := by
  induction headers with
  | nil => simp [Header.setIn, lookup, h]
  | cons f headers ih =>
    unfold lookup at hnone ih ⊢
    rw [List.find?_cons] at hnone
    cases hf : iequal f.1 key with
    | true => rw [hf] at hnone; exact absurd hnone (by simp)
    | false =>
      rw [hf] at hnone
      rw [Header.setIn, if_neg (fun hk => by rw [hk, h] at hf; exact absurd hf (by decide)),
        List.find?_cons]
      dsimp only
      rw [hf]
      exact ih hnone

/-- The header a client builds from some fields. -/
def setFields (fields : List (Bytes × Bytes)) (headers : List (Bytes × Bytes)) :
    List (Bytes × Bytes) :=
  fields.foldl (fun hs f => Header.setIn (trimmed f.1) (trimmed f.2) hs) headers

/-- A field that is alone with its name is found, and one that is not there is not. -/
theorem lookup_setFields (key : Bytes) (fields : List (Bytes × Bytes)) :
    ∀ headers : List (Bytes × Bytes), (named key fields = [] →
        lookup key (setFields fields headers) = lookup key headers) ∧
      (∀ v, named key fields = [v] → lookup key headers = none →
        lookup key (setFields fields headers) = some v) := by
  induction fields with
  | nil => exact fun headers => ⟨fun _ => rfl, fun v h => absurd h (by simp [named])⟩
  | cons f fields ih =>
    intro headers
    obtain ⟨ihnone, ihone⟩ := ih (Header.setIn (trimmed f.1) (trimmed f.2) headers)
    cases hf : iequal (trimmed f.1) key with
    | false =>
      rw [named_cons_ne hf]
      refine ⟨fun h => (ihnone h).trans (lookup_setIn_ne hf _ _), fun v h hnone => ?_⟩
      exact ihone v h ((lookup_setIn_ne hf _ _).trans hnone)
    | true =>
      rw [named_cons_eq hf]
      refine ⟨fun h => absurd h (by simp), fun v h hnone => ?_⟩
      obtain ⟨rfl, htail⟩ := List.cons.inj h
      exact (ihnone htail).trans (lookup_setIn_new hf _ hnone)

theorem setAll_headers (fields : List (Bytes × Bytes)) : ∀ h : Header,
    (h.setAll fields).headers = setFields fields h.headers := by
  have hfold : ∀ h : Header, (fields.foldl (fun h f => h.set (trimmed f.1) (trimmed f.2)) h).headers =
      setFields fields h.headers := by
    induction fields with
    | nil => exact fun h => rfl
    | cons f fields ih => exact fun h => ih (h.set (trimmed f.1) (trimmed f.2))
  exact hfold

/-- What Poco makes of a header up to the blanks around names and values, which are dropped. -/
def SameFields (fields headers : List (Bytes × Bytes)) : Prop :=
  fields.map (fun f => (trimmed f.1, trimmed f.2)) = headers.map fun f => (trimmed f.1, trimmed f.2)

end Oxool.Http
