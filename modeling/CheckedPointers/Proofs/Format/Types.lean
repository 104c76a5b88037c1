import CheckedPointers.Format.TypeFormat
import CheckedPointers.Proofs.Json.Layout

/-!
Types are read back from the documents written for them, when the numbers in them fit in their
words and the reader may open as many levels as the document has.
-/
namespace CheckedPointers

namespace Json

/-! ## Levels and ranges, member by member -/

theorem depthAll_le {items : List Json} {n : Nat} :
    depthAll items ≤ n ↔ ∀ j ∈ items, j.depth ≤ n := by
  induction items with
  | nil => simp [depthAll]
  | cons j rest ih => simp [depthAll, ih]

theorem depthFields_le {fields : List (String × Json)} {n : Nat} :
    depthFields fields ≤ n ↔ ∀ f ∈ fields, f.2.depth ≤ n := by
  induction fields with
  | nil => simp [depthFields]
  | cons f rest ih => simp [depthFields, ih]

/-- What is left for the items of a list that is not too deep. -/
theorem exists_of_depth_list_le {items : List Json} {n : Nat} (h : (list items).depth ≤ n) :
    ∃ m, n = m + 1 ∧ ∀ j ∈ items, j.depth ≤ m := by
  cases n with
  | zero => simp [depth] at h
  | succ m => exact ⟨m, rfl, depthAll_le.mp (Nat.le_of_succ_le_succ h)⟩

/-- What is left for the members of an object that is not too deep. -/
theorem exists_of_depth_object_le {fields : List (String × Json)} {n : Nat}
    (h : (object fields).depth ≤ n) : ∃ m, n = m + 1 ∧ ∀ f ∈ fields, f.2.depth ≤ m := by
  cases n with
  | zero => simp [depth] at h
  | succ m => exact ⟨m, rfl, depthFields_le.mp (Nat.le_of_succ_le_succ h)⟩

theorem exactAll_iff {items : List Json} : ExactAll items ↔ ∀ j ∈ items, j.Exact := by
  induction items with
  | nil => simp [ExactAll]
  | cons j rest ih => simp [ExactAll, ih]

theorem exactFields_iff {fields : List (String × Json)} :
    ExactFields fields ↔ ∀ f ∈ fields, f.2.Exact := by
  induction fields with
  | nil => simp [ExactFields]
  | cons f rest ih => simp [ExactFields, ih]

@[simp] theorem exact_list {items : List Json} : (list items).Exact ↔ ∀ j ∈ items, j.Exact :=
  exactAll_iff

@[simp] theorem exact_object {fields : List (String × Json)} :
    (object fields).Exact ↔ ∀ f ∈ fields, f.2.Exact :=
  exactFields_iff

@[simp] theorem exact_text (s : String) : (text s).Exact := trivial

@[simp] theorem exact_bool (b : Bool) : (bool b).Exact := trivial

theorem exact_nat {n : Nat} (h : n < 18446744073709551616) : (nat n).Exact := by
  constructor <;> omega

theorem exact_option {f : α → Json} {o : Option α} (h : ∀ a ∈ o, (f a).Exact) :
    (option f o).Exact := by
  cases o with
  | none => trivial
  | some a => exact h a rfl

/-! ## Readers of what was written -/

theorem asUnsigned_nat {bits n : Nat} (m : Nat) (h : n < Nat.pow 2 bits) :
    asUnsigned bits m (nat n) = some n := by
  have hrange : 0 ≤ (n : Int) ∧ (n : Int).toNat < Nat.pow 2 bits := ⟨by omega, h⟩
  rw [nat, asUnsigned, if_pos hrange, Int.toNat_natCast]

theorem asOption_option {read : Reader α} {f : α → Json} {o : Option α} {n : Nat}
    (hnull : ∀ a, f a ≠ .null) (h : ∀ a ∈ o, read n (f a) = some a) :
    asOption read n (option f o) = some o := by
  cases o with
  | none => rfl
  | some a =>
    rw [option, asOption, h a rfl]
    · rfl
    · exact hnull a

theorem mapM_map {read : Json → Option α} {f : α → Json} {as : List α}
    (h : ∀ a ∈ as, read (f a) = some a) : (as.map f).mapM read = some as := by
  induction as with
  | nil => rfl
  | cons a as ih =>
    have hrest := ih fun b hb => h b (List.mem_cons_of_mem a hb)
    simp [h a (by simp), hrest]

theorem asList_map {read : Reader α} {f : α → Json} {as : List α} {n : Nat}
    (h : ∀ a ∈ as, read n (f a) = some a) : asList read (n + 1) (list (as.map f)) = some as :=
  mapM_map h

end Json

/-! ## Types -/

namespace CType

mutual

def Fits : CType → Prop
  | builtin _ | record _ => True
  | pointer inner => inner.Fits
  | array elem size => elem.Fits ∧ ∀ n ∈ size, n < 18446744073709551616
  | function ret params _ _ => ret.Fits ∧ FitsAll params
  | typedef _ underlying => underlying.Fits

def FitsAll : List CType → Prop
  | [] => True
  | ty :: rest => ty.Fits ∧ FitsAll rest

end

mutual

theorem exact_toJson : ∀ ty : CType, ty.Fits → ty.toJson.Exact
  | builtin _, _ | record _, _ => by simp [toJson]
  | pointer inner, h => by simpa [toJson] using exact_toJson inner h
  | array elem size, h => by
    simpa [toJson] using
      ⟨exact_toJson elem h.1, Json.exact_option fun n hn => Json.exact_nat (h.2 n hn)⟩
  | function ret params _ _, h => by
    simpa [toJson] using ⟨exact_toJson ret h.1, exact_toJsonAll params h.2⟩
  | typedef _ underlying, h => by simpa [toJson] using exact_toJson underlying h

theorem exact_toJsonAll : ∀ tys : List CType, FitsAll tys → ∀ j ∈ toJsonAll tys, j.Exact
  | [], _ => by simp [toJsonAll]
  | ty :: rest, h => by simpa [toJsonAll] using ⟨exact_toJson ty h.1, exact_toJsonAll rest h.2⟩

end

end CType

namespace Signature

def toFields (s : Signature) : List (String × Json) :=
  [("ret", s.ret.toJson), ("params", .list (CType.toJsonAll s.params)),
    ("variadic", .bool s.variadic), ("has_prototype", .bool s.hasPrototype)]

/-- The members of a signature give the signature, when its types are read back. -/
theorem ofFields?_toFields {ret param : Json → Option CType} {s : Signature} {n : Nat}
    (hret : ret s.ret.toJson = some s.ret)
    (hparams : (CType.toJsonAll s.params).mapM param = some s.params) :
    ofFields? ret param (n + 1) s.toFields = some s := by
  simp [ofFields?, toFields, Json.required, Json.optional, Json.valuesOf, Json.asList, Json.asBool,
    hret, hparams]

end Signature

namespace CType

mutual

/-- A type is read back by a reader that may open all its levels. -/
theorem ofJson?_toJson : ∀ (ty : CType) (n : Nat), ty.Fits → ty.toJson.depth ≤ n →
    ofJson? n ty.toJson = some ty
  | builtin name, n, _, hd => by
    obtain ⟨n, rfl, -⟩ := Json.exists_of_depth_object_le hd
    rfl
  | record name, n, _, hd => by
    obtain ⟨n, rfl, -⟩ := Json.exists_of_depth_object_le hd
    rfl
  | pointer inner, n, h, hd => by
    obtain ⟨n, rfl, hn⟩ := Json.exists_of_depth_object_le hd
    have hinner := ofJson?_toJson inner n h (hn _ (List.mem_singleton_self _))
    simp [toJson, ofJson?, hinner]
  | array elem size, n, h, hd => by
    obtain ⟨n, rfl, hn⟩ := Json.exists_of_depth_object_le hd
    obtain ⟨n, rfl, hm⟩ := Json.exists_of_depth_object_le (hn _ (List.mem_singleton_self _))
    have helem := ofJson?_toJson elem n h.1 (hm _ List.mem_cons_self)
    have hsize : Json.asOption (Json.asUnsigned 64) n (Json.option Json.nat size) = some size :=
      Json.asOption_option nofun fun a ha => Json.asUnsigned_nat n (h.2 a ha)
    simp [toJson, ofJson?, Json.required, Json.optional, Json.valuesOf, helem, hsize]
  | function ret params variadic hasPrototype, n, h, hd => by
    obtain ⟨n, rfl, hn⟩ := Json.exists_of_depth_object_le hd
    obtain ⟨n, rfl, hm⟩ := Json.exists_of_depth_object_le (hn _ (List.mem_singleton_self _))
    simp only [List.forall_mem_cons] at hm
    obtain ⟨n, rfl, hparams⟩ := Json.exists_of_depth_list_le hm.2.1
    have hsignature := Signature.ofFields?_toFields
      (s := ⟨ret, params, variadic, hasPrototype⟩) (n := n) (ofJson?_toJson ret (n + 1) h.1 hm.1)
      (mapM_ofJson?_toJsonAll params n h.2 hparams)
    simp only [Signature.toFields] at hsignature
    simp [toJson, ofJson?, hsignature, Signature.toType]
  | typedef name underlying, n, h, hd => by
    obtain ⟨n, rfl, hn⟩ := Json.exists_of_depth_object_le hd
    obtain ⟨n, rfl, hm⟩ := Json.exists_of_depth_object_le (hn _ (List.mem_singleton_self _))
    simp only [List.forall_mem_cons] at hm
    have hinner := ofJson?_toJson underlying n h hm.2.1
    simp [toJson, ofJson?, Json.required, Json.valuesOf, Json.asText, hinner]

theorem mapM_ofJson?_toJsonAll : ∀ (tys : List CType) (n : Nat), FitsAll tys →
    (∀ j ∈ toJsonAll tys, j.depth ≤ n) → (toJsonAll tys).mapM (ofJson? n) = some tys
  | [], _, _, _ => rfl
  | ty :: rest, n, h, hn => by
    have hty := ofJson?_toJson ty n h.1 (hn ty.toJson (by simp [toJsonAll]))
    have hrest := mapM_ofJson?_toJsonAll rest n h.2 fun j hj => hn j (by simp [toJsonAll, hj])
    simp [toJsonAll, hty, hrest]

end

end CType

namespace Signature

def Fits (s : Signature) : Prop := s.ret.Fits ∧ CType.FitsAll s.params

theorem exact_toJson {s : Signature} (h : s.Fits) : s.toJson.Exact := by
  simpa [toJson] using ⟨CType.exact_toJson s.ret h.1, CType.exact_toJsonAll s.params h.2⟩

theorem ofJson?_toJson {s : Signature} {n : Nat} (h : s.Fits) (hd : s.toJson.depth ≤ n) :
    ofJson? n s.toJson = some s := by
  obtain ⟨n, rfl, hn⟩ := Json.exists_of_depth_object_le hd
  simp only [List.forall_mem_cons] at hn
  obtain ⟨n, rfl, hparams⟩ := Json.exists_of_depth_list_le hn.2.1
  exact ofFields?_toFields (CType.ofJson?_toJson s.ret (n + 1) h.1 hn.1)
    (CType.mapM_ofJson?_toJsonAll s.params n h.2 hparams)

end Signature

end CheckedPointers
