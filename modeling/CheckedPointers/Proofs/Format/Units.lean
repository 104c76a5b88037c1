import CheckedPointers.Command.UnitFile
import CheckedPointers.Proofs.Format.Types

/-!
Units are read back from the documents written for them, and from the texts of these documents.
-/
namespace CheckedPointers

namespace Json

mutual

theorem readable_of_exact : ∀ j : Json, j.Exact → j.readable = true
  | null, _ | bool _, _ | int _, _ | text _, _ => rfl
  | decimal _, h | torn, h => h.elim
  | list items, h => readableAll_of_exact items h
  | object fields, h => readableFields_of_exact fields h

theorem readableAll_of_exact : ∀ items : List Json, ExactAll items → readableAll items = true
  | [], _ => rfl
  | j :: rest, h => by
    rw [readableAll, readable_of_exact j h.1, readableAll_of_exact rest h.2]
    rfl

theorem readableFields_of_exact : ∀ fields : List (String × Json), ExactFields fields →
    readableFields fields = true
  | [], _ => rfl
  | (_, j) :: rest, h => by
    rw [readableFields, readable_of_exact j h.1, readableFields_of_exact rest h.2]
    rfl

end

/-- An object that names its variant first and only there is opened. -/
theorem variant?_object {tag : String} {name : Json} {fields : List (String × Json)} {n : Nat}
    (hexact : (object ((tag, name) :: fields)).Exact)
    (hd : (object ((tag, name) :: fields)).depth ≤ n + 1) (htag : ∀ f ∈ fields, f.1 ≠ tag) :
    (object ((tag, name) :: fields)).variant? tag (n + 1) =
      some (name, n, (tag, name) :: fields) := by
  have hnone : fields.filter (fun f => f.1 = tag) = [] :=
    List.filter_eq_nil_iff.mpr fun f hf => by simpa using htag f hf
  simp [variant?, readable_of_exact _ hexact, Nat.not_lt.mpr hd, open?, valuesOf, hnone]

/-- Ids, lines and columns fit in 32 bits. -/
def IsWord (n : Nat) : Prop := n < 4294967296

theorem IsWord.asUnsigned {k : Nat} (h : IsWord k) (n : Nat) :
    asUnsigned 32 n (nat k) = some k :=
  asUnsigned_nat n h

theorem IsWord.asId {k : Nat} (h : IsWord k) (n : Nat) : asId n (nat k) = some k :=
  h.asUnsigned n

theorem asList_ids {ids : List Nat} (h : ∀ k ∈ ids, IsWord k) (n : Nat) :
    asList Json.asId (n + 1) (list (ids.map nat)) = some ids :=
  asList_map fun k hk => (h k hk).asId n

theorem asOption_id {id : Option Nat} (h : ∀ k ∈ id, IsWord k) (n : Nat) :
    asOption Json.asId n (option nat id) = some id :=
  asOption_option (by simp [nat]) fun k hk => (h k hk).asId n

theorem asOption_text (s : Option String) (n : Nat) :
    asOption asText n (option text s) = some s :=
  asOption_option (by simp) fun _ _ => rfl

theorem exact_int {i : Int} (h : -9223372036854775808 ≤ i ∧ i < 9223372036854775808) :
    (int i).Exact := by
  constructor <;> omega

theorem asSigned64_int {i : Int} (h : -9223372036854775808 ≤ i ∧ i < 9223372036854775808)
    (n : Nat) : asSigned64 n (int i) = some i :=
  if_pos h

theorem IsWord.exact {k : Nat} (h : IsWord k) : (nat k).Exact :=
  exact_nat (Nat.lt_trans h (by decide))

end Json

namespace Anchor

def Fits (a : Anchor) : Prop := Json.IsWord a.line ∧ Json.IsWord a.column

theorem exact_toJson {a : Anchor} (h : a.Fits) : a.toJson.Exact := by
  simpa [toJson] using ⟨h.1.exact, h.2.exact⟩

theorem ofJson?_toJson {a : Anchor} {n : Nat} (h : a.Fits) (hd : a.toJson.depth ≤ n) :
    ofJson? n a.toJson = some a := by
  obtain ⟨n, rfl, -⟩ := Json.exists_of_depth_object_le hd
  simp [ofJson?, toJson, Json.open?, Json.required, Json.valuesOf, Json.asText, h.1.asUnsigned,
    h.2.asUnsigned]

end Anchor

namespace Expr

def Fits : Expr → Prop
  | declRef decl => Json.IsWord decl
  | member base field => Json.IsWord base ∧ Json.IsWord field
  | binary _ lhs rhs => Json.IsWord lhs ∧ Json.IsWord rhs
  | unary _ inner | paren inner | implicitCast inner | bindTemporary inner => Json.IsWord inner
  | subscript base index => Json.IsWord base ∧ Json.IsWord index
  | call callee args => Json.IsWord callee ∧ ∀ a ∈ args, Json.IsWord a
  | conditional cond whenTrue whenFalse =>
    Json.IsWord cond ∧ Json.IsWord whenTrue ∧ Json.IsWord whenFalse
  | stringLiteral _ => True
  | intLiteral value => -9223372036854775808 ≤ value ∧ value < 9223372036854775808
  | cast ty inner => ty.Fits ∧ Json.IsWord inner
  | sizeOf ty => ty.Fits

theorem exact_toJson {e : Expr} (h : e.Fits) : e.toJson.Exact := by
  cases e <;> simp only [Fits] at h <;>
    simp_all [toJson, Json.IsWord.exact, Json.exact_int, CType.exact_toJson]

theorem asName_binary (op : BinaryOp) (n : Nat) :
    Json.asName BinaryOp.ofCode? n (.text op.code) = some op := by
  cases op <;> rfl

theorem asName_unary (op : UnaryOp) (n : Nat) :
    Json.asName UnaryOp.ofCode? n (.text op.code) = some op := by
  cases op <;> rfl

/-- An expression is read back by a reader that may open all its levels. -/
theorem ofJson?_toJson {e : Expr} {n : Nat} (h : e.Fits) (hd : e.toJson.depth ≤ n) :
    ofJson? n e.toJson = some e := by
  have hexact := exact_toJson h
  cases e
  all_goals
    simp only [Fits] at h
    obtain ⟨n, rfl, hn⟩ := Json.exists_of_depth_object_le hd
    rw [ofJson?, toJson, Json.variant?_object hexact hd (by simp)]
    clear hexact hd
    simp only [List.forall_mem_cons] at hn
    -- The name picks the alternative before the members of the others are looked at.
    simp only [Option.bind_eq_bind, Option.bind_some]
  case declRef | paren | implicitCast | bindTemporary =>
    simp [Json.required, Json.valuesOf, h.asId]
  case member | subscript => simp [Json.required, Json.valuesOf, h.1.asId, h.2.asId]
  case binary op lhs rhs =>
    simp [Json.required, Json.valuesOf, h.1.asId, h.2.asId, asName_binary]
  case unary op inner => simp [Json.required, Json.valuesOf, h.asId, asName_unary]
  case call callee args =>
    obtain ⟨n, rfl, -⟩ := Json.exists_of_depth_list_le hn.2.2.1
    simp [Json.required, Json.optional, Json.valuesOf, h.1.asId, Json.asList_ids h.2]
  case conditional => simp [Json.required, Json.valuesOf, h.1.asId, h.2.1.asId, h.2.2.asId]
  case stringLiteral => simp [Json.required, Json.valuesOf, Json.asText]
  case intLiteral value => simp [Json.required, Json.valuesOf, Json.asSigned64_int h]
  case cast ty inner =>
    have hty := CType.ofJson?_toJson ty n h.1 hn.2.1
    simp [Json.required, Json.valuesOf, h.2.asId, hty]
  case sizeOf ty =>
    have hty := CType.ofJson?_toJson ty n h hn.2.1
    simp [Json.required, Json.valuesOf, hty]

end Expr

namespace Stmt

mutual

def Fits : Stmt → Prop
  | expr e => Json.IsWord e
  | ret value => ∀ e ∈ value, Json.IsWord e
  | decl d => Json.IsWord d
  | block stmts => FitsAll stmts

def FitsAll : List Stmt → Prop
  | [] => True
  | s :: rest => s.Fits ∧ FitsAll rest

end

mutual

theorem exact_toJson : ∀ s : Stmt, s.Fits → s.toJson.Exact
  | expr _, h | decl _, h => by simpa [toJson] using Json.IsWord.exact h
  | ret value, h => by simpa [toJson] using Json.exact_option fun e he => (h e he).exact
  | block stmts, h => by simpa [toJson] using exact_toJsonAll stmts h

theorem exact_toJsonAll : ∀ stmts : List Stmt, FitsAll stmts → ∀ j ∈ toJsonAll stmts, j.Exact
  | [], _ => by simp [toJsonAll]
  | s :: rest, h => by simpa [toJsonAll] using ⟨exact_toJson s h.1, exact_toJsonAll rest h.2⟩

end

mutual

/-- A statement is read back by a reader that may open all its levels. -/
theorem ofJson?_toJson : ∀ (s : Stmt) (n : Nat), s.Fits → s.toJson.depth ≤ n →
    ofJson? n s.toJson = some s
  | expr e, n, h, hd => by
    obtain ⟨n, rfl, -⟩ := Json.exists_of_depth_object_le hd
    rw [ofJson?.eq_def, toJson]
    simp [Json.required, Json.valuesOf, Variant.ofTag?, Json.IsWord.asId h]
  | ret value, n, h, hd => by
    obtain ⟨n, rfl, -⟩ := Json.exists_of_depth_object_le hd
    rw [ofJson?.eq_def, toJson]
    simp [Json.required, Json.optional, Json.valuesOf, Variant.ofTag?, Json.asOption_id h]
  | decl d, n, h, hd => by
    obtain ⟨n, rfl, -⟩ := Json.exists_of_depth_object_le hd
    rw [ofJson?.eq_def, toJson]
    simp [Json.required, Json.valuesOf, Variant.ofTag?, Json.IsWord.asId h]
  | block stmts, n, h, hd => by
    obtain ⟨n, rfl, hn⟩ := Json.exists_of_depth_object_le hd
    simp only [List.forall_mem_cons] at hn
    obtain ⟨n, rfl, hstmts⟩ := Json.exists_of_depth_list_le hn.2.1
    have hread := mapM_ofJson?_toJsonAll stmts n h hstmts
    simp [ofJson?, toJson, Json.required, Json.valuesOf, Variant.ofTag?, Json.asList, hread]

theorem mapM_ofJson?_toJsonAll : ∀ (stmts : List Stmt) (n : Nat), FitsAll stmts →
    (∀ j ∈ toJsonAll stmts, j.depth ≤ n) → (toJsonAll stmts).mapM (ofJson? n) = some stmts
  | [], _, _, _ => rfl
  | s :: rest, n, h, hn => by
    have hs := ofJson?_toJson s n h.1 (hn s.toJson (by simp [toJsonAll]))
    have hrest := mapM_ofJson?_toJsonAll rest n h.2 fun j hj => hn j (by simp [toJsonAll, hj])
    simp [toJsonAll, hs, hrest]

end

end Stmt

namespace DeclKind

def Fits : DeclKind → Prop
  | var ty _ _ init => ty.Fits ∧ ∀ e ∈ init, Json.IsWord e
  | field ty _ | typedef ty => ty.Fits
  | function signature params _ body =>
    signature.Fits ∧ (∀ d ∈ params, Json.IsWord d) ∧ ∀ stmts ∈ body, Stmt.FitsAll stmts
  | param ty owner _ => ty.Fits ∧ ∀ d ∈ owner, Json.IsWord d
  | enumConstant value => -9223372036854775808 ≤ value ∧ value < 9223372036854775808

theorem exact_itype (itype : Option String) : (Json.option .text itype).Exact :=
  Json.exact_option fun s _ => Json.exact_text s

theorem exact_id {id : Option Nat} (h : ∀ k ∈ id, Json.IsWord k) :
    (Json.option .nat id).Exact :=
  Json.exact_option fun k hk => (h k hk).exact

/-- Declarations with numbers in their words are written exactly. -/
theorem exact_toJson {k : DeclKind} (h : k.Fits) : k.toJson.Exact := by
  cases k with
  | var ty isGlobal itype init =>
    simpa [toJson, exact_itype] using ⟨CType.exact_toJson ty h.1, exact_id h.2⟩
  | field ty itype => simpa [toJson, exact_itype] using CType.exact_toJson ty h
  | function signature params isGlobal body =>
    have hbody : (Json.option (fun stmts => .list (Stmt.toJsonAll stmts)) body).Exact :=
      Json.exact_option fun stmts hs =>
        Json.exact_list.mpr (Stmt.exact_toJsonAll stmts (h.2.2 stmts hs))
    simpa [toJson] using
      ⟨Signature.exact_toJson h.1, fun d hd => (h.2.1 d hd).exact, hbody⟩
  | param ty owner itype =>
    simpa [toJson, exact_itype] using ⟨CType.exact_toJson ty h.1, exact_id h.2⟩
  | typedef ty => simpa [toJson] using CType.exact_toJson ty h
  | enumConstant value => simpa [toJson] using Json.exact_int h

/-- A declaration's kind is read back by a reader that may open all its levels. -/
theorem ofJson?_toJson {k : DeclKind} {n : Nat} (h : k.Fits) (hd : k.toJson.depth ≤ n) :
    ofJson? n k.toJson = some k := by
  have hexact := exact_toJson h
  cases k
  all_goals
    simp only [Fits] at h
    obtain ⟨n, rfl, hn⟩ := Json.exists_of_depth_object_le hd
    rw [ofJson?, toJson, Json.variant?_object hexact hd (by simp)]
    clear hexact hd
    simp only [List.forall_mem_cons] at hn
    simp only [Option.bind_eq_bind, Option.bind_some]
  case var ty isGlobal itype init =>
    have hty := CType.ofJson?_toJson ty n h.1 hn.2.1
    simp [Json.required, Json.optional, Json.valuesOf, Json.asBool, hty, Json.asOption_text,
      Json.asOption_id h.2]
  case field ty itype =>
    have hty := CType.ofJson?_toJson ty n h hn.2.1
    simp [Json.required, Json.optional, Json.valuesOf, hty, Json.asOption_text]
  case function signature params isGlobal body =>
    have hsignature := Signature.ofJson?_toJson h.1 hn.2.1
    obtain ⟨n, rfl, -⟩ := Json.exists_of_depth_list_le hn.2.2.1
    have hbody : Json.asOption (Json.asList Stmt.ofJson?) (n + 1)
        (Json.option (fun stmts => .list (Stmt.toJsonAll stmts)) body) = some body := by
      refine Json.asOption_option (by simp) fun stmts hs => ?_
      obtain rfl := Option.mem_def.mp hs
      obtain ⟨m, heq, hstmts⟩ := Json.exists_of_depth_list_le hn.2.2.2.2.1
      obtain rfl := Nat.succ.inj heq
      exact Stmt.mapM_ofJson?_toJsonAll stmts n (h.2.2 stmts rfl) hstmts
    simp [Json.required, Json.optional, Json.valuesOf, Json.asBool, hsignature,
      Json.asList_ids h.2.1, hbody]
  case param ty owner itype =>
    have hty := CType.ofJson?_toJson ty n h.1 hn.2.1
    simp [Json.required, Json.optional, Json.valuesOf, hty, Json.asOption_text,
      Json.asOption_id h.2]
  case typedef ty =>
    have hty := CType.ofJson?_toJson ty n h hn.2.1
    simp [Json.required, Json.valuesOf, hty]
  case enumConstant value => simp [Json.required, Json.valuesOf, Json.asSigned64_int h]

end DeclKind

namespace Decl

def Fits (d : Decl) : Prop := d.anchor.Fits ∧ d.kind.Fits

theorem exact_toJson {d : Decl} (h : d.Fits) : d.toJson.Exact := by
  simpa [toJson] using ⟨Anchor.exact_toJson h.1, DeclKind.exact_toJson h.2⟩

/-- A declaration is read back from what is written of it. -/
theorem ofJson?_toJson {d : Decl} {n : Nat} (h : d.Fits) (hd : d.toJson.depth ≤ n) :
    ofJson? n d.toJson = some d := by
  obtain ⟨n, rfl, hn⟩ := Json.exists_of_depth_object_le hd
  simp only [List.forall_mem_cons] at hn
  have hanchor := Anchor.ofJson?_toJson h.1 hn.2.1
  have hkind := DeclKind.ofJson?_toJson h.2 hn.2.2.2.1
  simp [ofJson?, toJson, Json.open?, Json.required, Json.optional, Json.valuesOf, Json.asText,
    Json.asBool, hanchor, hkind]

end Decl

namespace TranslationUnit

structure Fits (u : TranslationUnit) : Prop where
  id : Json.IsWord u.id
  decls : ∀ d ∈ u.decls.toList, d.Fits
  exprs : ∀ e ∈ u.exprs.toList, e.Fits
  topLevel : ∀ d ∈ u.topLevel, Json.IsWord d

theorem exact_toJson {u : TranslationUnit} (h : u.Fits) : u.toJson.Exact := by
  simp only [toJson, Json.exact_object, List.forall_mem_cons, Json.exact_list, List.forall_mem_map]
  exact ⟨h.id.exact, Json.exact_text u.file, fun d hd => Decl.exact_toJson (h.decls d hd),
    fun e he => Expr.exact_toJson (h.exprs e he), fun d hd => (h.topLevel d hd).exact,
    List.forall_mem_nil _⟩

/-- A unit is read back by a reader that may open all its levels. -/
theorem ofJson?_toJson {u : TranslationUnit} {n : Nat} (h : u.Fits) (hd : u.toJson.depth ≤ n) :
    ofJson? n u.toJson = some u := by
  obtain ⟨n, rfl, hn⟩ := Json.exists_of_depth_object_le hd
  simp only [List.forall_mem_cons] at hn
  obtain ⟨n, rfl, hdecls⟩ := Json.exists_of_depth_list_le hn.2.2.1
  obtain ⟨m, heq, hexprs⟩ := Json.exists_of_depth_list_le hn.2.2.2.1
  obtain rfl := Nat.succ.inj heq
  have hread : Json.asList Decl.ofJson? (n + 1) (.list (u.decls.toList.map Decl.toJson)) =
      some u.decls.toList :=
    Json.asList_map fun d hd =>
      Decl.ofJson?_toJson (h.decls d hd) (hdecls d.toJson (List.mem_map_of_mem hd))
  have hread' : Json.asList Expr.ofJson? (n + 1) (.list (u.exprs.toList.map Expr.toJson)) =
      some u.exprs.toList :=
    Json.asList_map fun e he =>
      Expr.ofJson?_toJson (h.exprs e he) (hexprs e.toJson (List.mem_map_of_mem he))
  simp only [ofJson?, toJson, Json.open?]
  simp [Json.required, Json.optional, Json.valuesOf, Json.asText, h.id.asId, hread, hread',
    Json.asList_ids h.topLevel]

/-- The text of a document that is not too deep is read as the unit that the document was written
for, in any layout. -/
theorem ofText_spelled {u : TranslationUnit} {cs : List Char} (h : u.Fits)
    (hd : u.toJson.depth ≤ Json.nestingLimit) (hclosed : u.checkClosed = .ok ())
    (hcs : Json.Spells cs u.toJson) : ofText (String.ofList cs) = .ok u := by
  have hparse : Json.parse? (String.ofList cs) = some u.toJson := by
    simpa using hcs.parse?_eq Json.blanks_nil Json.blanks_nil
  simp only [ofText, hparse, Option.bind_some, ofJson?_toJson h hd, hclosed]

theorem fromUTF8?_toUTF8 (s : String) : String.fromUTF8? s.toUTF8 = some s := by
  rw [String.fromUTF8?, String.toUTF8_eq_toByteArray, dif_pos s.isValidUTF8]
  rfl

/-- Writing and reading are inverse. The document of a unit is read as the unit; and a file that
holds the document, on one line or one member a line, is loaded as the unit if the unit is closed
and the document opens no more levels than a reader of files may. -/
theorem written_unit_read_back {u : TranslationUnit} (h : u.Fits) :
    (∀ n, u.toJson.depth ≤ n → ofJson? n u.toJson = some u) ∧
      ∀ (files : Files) (path : String) (text : List Char),
        u.toJson.depth ≤ Json.nestingLimit → u.checkClosed = .ok () →
          text = u.toJson.compact ∨ text = u.toJson.pretty 0 →
            files path = some (String.ofList text).toUTF8 → ofFile files path = .ok u := by
  refine ⟨fun n => ofJson?_toJson h, fun files path text hd hclosed htext hfile => ?_⟩
  have hspells : Json.Spells text u.toJson := by
    rcases htext with rfl | rfl
    · exact Json.spells_compact u.toJson (exact_toJson h)
    · exact Json.spells_pretty 0 u.toJson (exact_toJson h)
  have hread : files.text? path = some (String.ofList text) := by
    rw [Files.text?, hfile]
    exact fromUTF8?_toUTF8 (String.ofList text)
  rw [ofFile, hread]
  exact ofText_spelled h hd hclosed hspells

def callback (name : String) : CType :=
  .typedef name (.function (.record "s") [.array (.builtin "char") none] true false)

/-- A unit with the largest and the least numbers, names that have to be escaped, members that
are absent and types and statements that are nested. -/
def extreme : TranslationUnit where
  id := 4294967295
  file := "a \"b\" \\ \t\x01.c"
  decls := #[
    { name := "f"
      anchor := ⟨"a.h", 4294967295, 0⟩
      inMacro := true
      kind := .function
        ⟨.pointer (.array (.builtin "int") (some 18446744073709551615)),
          [callback "t"], false, true⟩
        [1] false (some [.block [.decl 2, .block [.ret none]], .ret (some 1)]) },
    { name := "p", anchor := ⟨"", 0, 0⟩, inMacro := false
      kind := .param (.builtin "int") (some 0) (some "") },
    { name := "v", anchor := ⟨"a.c", 2, 3⟩, inMacro := false
      kind := .var (.pointer (.builtin "int")) false none (some 1) },
    { name := "g", anchor := ⟨"a.c", 4, 5⟩, inMacro := false
      kind := .function ⟨.builtin "void", [], false, false⟩ [] true none },
    { name := "e", anchor := ⟨"a.c", 6, 7⟩, inMacro := false
      kind := .enumConstant 9223372036854775807 }]
  exprs := #[.intLiteral (-9223372036854775808), .cast (.pointer (.builtin "int")) 0,
    .stringLiteral "\x7b\n\x7d", .declRef 3, .call 3 [2]]
  topLevel := [0, 3]

/-- The extreme unit is read back from its text. -/
theorem extreme_read_back :
    extreme.Fits ∧ extreme.toJson.depth ≤ Json.nestingLimit ∧ extreme.checkClosed = .ok () ∧
      ofJson? Json.nestingLimit extreme.toJson = some extreme ∧
        ofFile (fun _ => some (String.ofList (extreme.toJson.pretty 0)).toUTF8) "a.json" =
          .ok extreme := by
  have hfits : extreme.Fits := by
    constructor <;>
      simp [extreme, callback, Json.IsWord, Decl.Fits, Anchor.Fits, DeclKind.Fits, Signature.Fits,
        CType.Fits, CType.FitsAll, Stmt.Fits, Stmt.FitsAll, Expr.Fits]
  have hdepth : extreme.toJson.depth ≤ Json.nestingLimit := by decide
  have hclosed : extreme.checkClosed = .ok () := by decide +kernel
  have hread := written_unit_read_back hfits
  exact ⟨hfits, hdepth, hclosed, hread.1 Json.nestingLimit hdepth,
    hread.2 _ "a.json" _ hdepth hclosed (.inr rfl) rfl⟩

end TranslationUnit

end CheckedPointers
