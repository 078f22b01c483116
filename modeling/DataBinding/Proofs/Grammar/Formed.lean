import DataBinding.Proofs.Expr.Formed
import DataBinding.Proofs.Grammar.Readings

/-!
# Expressions that are read are well-formed

By each rule of reading, the members and methods in an expression are those that the types of the operands
give. Static members stand on the types that declare them, and a minus sign stands in front of no number.
-/
namespace DataBinding.Grammar
open Piece

/-! ## Rules for reading -/

/-- The rules allow what is read in the setting. -/
structure Covers (ρ : Rules) (s : Setting) : Prop where
  registry : ρ.registry = s.registry
  paths : s.registry.NamesArePaths
  layered : s.registry.Layered
  root : ρ.leaf s.root
  root_digit : digitLed s.root.pieces = false
  root_number : startsWithNumber s.root = false
  null : ρ.leaf .null
  bool (value : Bool) : ρ.leaf (.constant (.bool value) .boolean)
  number {text : String} (h : IsNumber text) : ρ.leaf (.constant (.number text) (numberType text))
  negative {text : String} (h : IsNumber text) : ρ.leaf (.constant (.number ("-" ++ text)) (numberType text))
  type {name : String} (h : s.registry.Names name) : IsPath name ∧ ρ.leaf (.typeRef (.named name))
  member {e : Expr} {m : Member} (hname : IsIdentifier m.name)
    (h : s.registry.member? e.type m.name = some m) (hstatic : m.isStatic = e.isTypeRef) : ρ.member e m

def Named (ρ : Rules) (t : TypeRef) : Prop := ∃ name, t = .named name ∧ IsPath name ∧ ρ.leaf (.typeRef t)

variable {ρ : Rules} {s : Setting} (hρ : Covers ρ s)
include hρ

/-! ## Types -/

theorem Covers.named {name : String} (h : s.registry.Names name) : Named ρ (.named name) :=
  ⟨name, rfl, hρ.type h⟩

theorem Covers.named_ref {d : TypeDef} (hd : d ∈ s.registry.types) : Named ρ d.ref := by
  rw [hρ.paths.ref hd]
  exact hρ.named (Or.inl (List.mem_map.mpr ⟨d, hd, rfl⟩))

theorem Covers.named_of_denotes {t : TypeRef} (h : s.registry.Denotes t) : Named ρ t := by
  obtain ⟨n, hn, rfl⟩ := h.names hρ.paths
  exact hρ.named hn

theorem Covers.named_of_names {t : TypeRef} (h : s.Names t) : Named ρ t := by
  rcases h with h | ⟨expected, -, henum, rfl⟩
  · exact hρ.named_of_denotes h
  · obtain ⟨d, hd, -⟩ := (Option.any_eq_true _ _).mp henum
    obtain ⟨hd, hdname⟩ := Registry.typeDef?_eq_some hd
    exact hρ.named (Or.inl (List.mem_map.mpr ⟨d, hd, hdname⟩))

/-- A static member stands on the type that declares it. -/
theorem Covers.static {t : TypeRef} {m : Member} (hname : IsIdentifier m.name)
    (h : s.registry.member? t m.name = some m) (hstatic : m.isStatic = true) :
    ρ.member (.typeRef m.declaringType) m := by
  obtain ⟨d, hd, hm⟩ := Registry.exists_declaring_of_member? h hstatic
  have htype : Named ρ m.declaringType := by
    rw [(Registry.ownMember?_eq_some hm).2]
    exact hρ.named_ref (Registry.mem_types_of_mem_lookupDefs hd)
  obtain ⟨n, hnamed, hpath, -⟩ := htype
  have harray : m.declaringType.isArray = false := hnamed ▸ hpath.isArray_named
  exact hρ.member hname
    (Registry.member?_declaringType hρ.layered (fun d hd => hρ.paths.ref hd) h hstatic harray) hstatic

/-! ## First characters -/

omit hρ in
theorem digitLed_append {ps qs : List Piece} (hps : digitLed ps = false) (hqs : digitLed qs = false) :
    digitLed (ps ++ qs) = false := by
  cases ps with
  | nil => exact hqs
  | cons p ps => cases p <;> exact hps

omit hρ in
theorem digitLed_point (nullSafe : Bool) (ps : List Piece) : digitLed (point nullSafe ++ ps) = false := by
  cases nullSafe <;> rfl

omit hρ in
theorem digitLed_path {name : String} (h : IsPath name) : digitLed (chars name.toList) = false := by
  obtain ⟨c, hc, -, hdigit⟩ := h.1
  cases hname : name.toList with
  | nil => rfl
  | cons d ds =>
    obtain rfl : d = c := by simpa [hname] using hc
    exact hdigit

omit hρ in
theorem digitLed_typeRef {t : TypeRef} (h : Named ρ t) : digitLed (Expr.typeRef t).pieces = false := by
  obtain ⟨name, rfl, hname, -⟩ := h
  exact digitLed_path hname

/-- Only what starts with a number starts with a digit. -/
theorem digitLed_of_reading {e : Expr} (h : Reading s e) (hnumber : startsWithNumber e = false) :
    digitLed e.pieces = false := by
  induction h with
  | root => exact hρ.root_digit
  | null | typeOf _ | default _ | create _ _ => rfl
  | bool value => cases value <;> rfl
  | @number text htext =>
    obtain ⟨c, hc, hdigit⟩ := htext.head
    simp [startsWithNumber, Expr.constant, Option.mem_def.mp hc, hdigit] at hnumber
  | negative _ => simp [Expr.constant, Expr.pieces_eq, Form.pieces, Constant.key, digitLed]
  | text value =>
    rw [Expr.pieces_text]
    rfl
  | type h => exact digitLed_typeRef (hρ.named_of_names h)
  | member marker nullSafe _ _ _ _ ih =>
    rw [Expr.pieces_member]
    exact digitLed_append (ih hnumber) (digitLed_point _ _)
  | static htype _ _ _ ih =>
    rw [Expr.pieces_member]
    exact digitLed_append (ih rfl) (digitLed_point _ _)
  | element marker _ _ _ _ _ ih _ =>
    rw [Expr.pieces_element]
    exact digitLed_append (ih hnumber) rfl
  | call nullSafe _ _ _ _ _ ih _ =>
    rw [Expr.pieces_call, List.append_assoc]
    exact digitLed_append (ih hnumber) (digitLed_append (digitLed_point _ _) rfl)
  | staticCall nullSafe _ _ _ _ _ _ _ ih _ =>
    rw [Expr.pieces_call, List.append_assoc]
    exact digitLed_append (ih rfl) (digitLed_append (digitLed_point _ _) rfl)
  | cast _ _ _ =>
    rw [Expr.pieces_cast]
    rfl
  | paren _ _ =>
    rw [Expr.pieces_paren]
    rfl
  | not _ _ _ =>
    rw [Expr.pieces_not]
    rfl
  | negate _ _ _ _ =>
    rw [Expr.pieces_negate]
    rfl
  | binary _ _ _ _ _ =>
    rw [Expr.pieces_binary]
    rfl
  | conditional _ _ _ _ _ _ _ _ =>
    rw [Expr.pieces_conditional]
    rfl
  | coalesce _ _ _ _ _ =>
    rw [Expr.pieces_coalesce]
    rfl

/-! ## Rules -/

theorem Reading.formed {e : Expr} (h : Reading s e) : e.Formed ρ := by
  induction h with
  | root => exact .leaf hρ.root
  | null => exact .leaf hρ.null
  | bool value => exact .leaf (hρ.bool value)
  | number h => exact .leaf (hρ.number h)
  | negative h => exact .leaf (hρ.negative h)
  | text value => exact .text value
  | type h =>
    obtain ⟨-, -, -, hleaf⟩ := hρ.named_of_names h
    exact .leaf hleaf
  | member marker nullSafe _ hname h hstatic ih => exact .member marker nullSafe ih (hρ.member hname h hstatic)
  | static _ hname h hstatic ih => exact .member none false ih (hρ.static hname h hstatic)
  | element marker _ _ h _ _ ih ihargs => exact .element marker ih ihargs (hρ.registry ▸ h)
  | call nullSafe _ _ hname h _ ih ihargs =>
    exact .call nullSafe ih ihargs hname.toIsWord (hρ.registry ▸ Registry.called?_of_method? h)
  | staticCall nullSafe _ _ _ hname h _ _ ih ihargs =>
    have hagain := Registry.method?_declaringType hρ.layered (fun d hd => hρ.paths.ref hd) h
    exact .call nullSafe ih ihargs hname.toIsWord (hρ.registry ▸ Registry.called?_of_method? hagain)
  | cast _ h ih =>
    obtain ⟨name, rfl, hpath, -⟩ := hρ.named_of_denotes h
    exact .cast ih hpath.isLegible_named
  | create h _ ihargs =>
    obtain ⟨name, rfl, hpath, -⟩ := hρ.named_of_denotes h
    exact .create hpath ihargs
  | typeOf h =>
    obtain ⟨name, rfl, hpath, -⟩ := hρ.named_of_denotes h
    exact .typeOf (Bool.and_eq_true_iff.mp hpath.isLegible_named).1
  | default h =>
    obtain ⟨name, rfl, hpath, -⟩ := hρ.named_of_denotes h
    exact .default hpath
  | paren _ ih => exact .paren ih
  | not _ _ ih => exact .not ih
  | negate he _ hnumber ih => exact .negate ih (digitLed_of_reading hρ he hnumber)
  | binary _ _ h ihleft ihright => exact .binary ihleft ihright (hρ.registry ▸ h)
  | conditional _ _ _ _ h ihtest ihtrue ihfalse => exact .conditional ihtest ihtrue ihfalse (hρ.registry ▸ h)
  | coalesce _ _ h ihleft ihright => exact .coalesce ihleft ihright (hρ.registry ▸ coalescedType_of_eq_some h)

theorem parseBytes_formed {text : List Char} {whole : Bool} {parsed : Parsed}
    (h : parseBytes s text whole = .ok parsed) : parsed.expr.Formed ρ :=
  (parseBytes_reading hρ.root_number h).formed hρ

end DataBinding.Grammar
