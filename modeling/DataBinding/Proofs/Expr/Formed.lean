import DataBinding.Expr.Typing
import DataBinding.Proofs.Expr.Layout
import DataBinding.Proofs.Expr.Meaning
import DataBinding.Proofs.Text.Paths

/-!
# Keys of well-formed expressions

An expression is well-formed if its types, members and methods are those that its operands determine. Then
its key determines it up to the markers of accesses, as far as the key of no leaf can be taken for that of
an access.
-/
namespace DataBinding
open Text Piece

/-! ## Expressions without markers -/

def Form.unmarked : Form → Form
  | .member m _ nullSafe => .member m none nullSafe
  | .element m _ => .element m none
  | form => form

namespace Expr

mutual

def unmarked : Expr → Expr
  | ⟨form, type, operands⟩ => ⟨form.unmarked, type, unmarkedAll operands⟩

def unmarkedAll : List Expr → List Expr
  | [] => []
  | e :: es => e.unmarked :: unmarkedAll es

end

theorem unmarkedAll_eq_map (es : List Expr) : unmarkedAll es = es.map unmarked := by
  induction es with
  | nil => rfl
  | cons e es ih => simp [unmarkedAll, ih]

theorem unmarked_eq (form : Form) (type : TypeRef) (operands : List Expr) :
    unmarked ⟨form, type, operands⟩ = ⟨form.unmarked, type, operands.map unmarked⟩ := by
  rw [unmarked, unmarkedAll_eq_map]

theorem type_unmarked (e : Expr) : e.unmarked.type = e.type := by
  obtain ⟨form, type, operands⟩ := e
  rw [unmarked_eq]

theorem type_eq_of_unmarked {e e' : Expr} (h : e.unmarked = e'.unmarked) : e.type = e'.type := by
  rw [← type_unmarked e, h, type_unmarked]

theorem key_unmarked (e : Expr) : e.unmarked.key = e.key := by
  induction e using Expr.induction with
  | node form type operands ih =>
    have hkeys : (operands.map unmarked).map key = operands.map key := by
      rw [List.map_map]
      exact List.map_congr_left ih
    rw [unmarked_eq, key_eq, key_eq, hkeys]
    cases form <;> rfl

theorem key_eq_of_unmarked {e e' : Expr} (h : e.unmarked = e'.unmarked) : e.key = e'.key := by
  rw [← key_unmarked e, h, key_unmarked]

end Expr

/-! ## Well-formed expressions -/

/-- The name can be read where the type is written in brackets, and does not end like that of a nullable type. -/
def TypeRef.isLegible (t : TypeRef) : Bool :=
  Piece.isLegible t.name.toList && t.name.toList.getLast? != some '?'

theorem TypeRef.isLegible_display {t : TypeRef} (h : t.isLegible = true) :
    Piece.isLegible t.display.toList = true := by
  have hname := (Bool.and_eq_true_iff.mp h).1
  unfold display
  split
  · rw [String.toList_append]
    exact isLegible_append hname
  · exact hname

theorem TypeRef.display_inj {t t' : TypeRef} (ht : t.isLegible = true) (ht' : t'.isLegible = true)
    (h : t.display = t'.display) : t = t' := by
  have hlast {a b : TypeRef} (hb : b.isLegible = true) : a.name ++ "?" ≠ b.name := by
    intro heq
    simp [TypeRef.isLegible, ← heq] at hb
  obtain ⟨name, nullable⟩ := t
  obtain ⟨name', nullable'⟩ := t'
  cases nullable <;> cases nullable'
  · exact congrArg TypeRef.named h
  · exact absurd h.symm (hlast (a := ⟨name', true⟩) ht)
  · exact absurd h (hlast (a := ⟨name, true⟩) ht')
  · have hname : name = name' := by simpa [display] using h
    rw [hname]

theorem IsPath.isLegible_named {name : String} (h : IsPath name) : (TypeRef.named name).isLegible = true := by
  have hmarks : ∀ c ∈ name.toList, c ∉ marks := fun c hc => by
    rcases h.2 c hc with h | rfl
    · exact not_mem_marks (Or.inl h)
    · decide
  have hlast : name.toList.getLast? ≠ some '?' := fun hlast =>
    h.not_mem (by decide) (by decide) (List.mem_of_getLast? hlast)
  simp [TypeRef.isLegible, TypeRef.named, isLegible_of_forall hmarks, hlast]

/-- The method that a call means: the first one, if none takes the arguments. -/
def Registry.called? (r : Registry) (t : TypeRef) (name : String) (args : List TypeRef) : Option Member :=
  (r.method? t name args).or (r.methods t name).head?

theorem Registry.called?_of_method? {r : Registry} {t : TypeRef} {name : String} {args : List TypeRef} {m : Member}
    (h : r.method? t name args = some m) : r.called? t name args = some m := by
  rw [called?, h]
  rfl

/-- The type of a value with a replacement for null, whether or not the replacement is of use. -/
def coalescedType (r : Registry) (left right : TypeRef) : TypeRef :=
  (coalesceType? r left right).getD (left.withNullable false)

theorem coalescedType_of_eq_some {r : Registry} {left right type : TypeRef}
    (h : coalesceType? r left right = some type) : coalescedType r left right = type := by
  rw [coalescedType, h]
  rfl

/-- What the names in expressions mean. -/
structure Rules where
  registry : Registry
  /-- Words that stand for themselves. -/
  leaf : Expr → Prop
  member : Expr → Member → Prop

namespace Expr

variable (ρ : Rules)

/-- Types, members and methods are those that the operands determine. -/
inductive Formed : Expr → Prop where
  | leaf {e : Expr} (h : ρ.leaf e) : Formed e
  | text (value : String) : Formed (constant (.string value) .string)
  | member {target : Expr} {m : Member} (marker : Option Marker) (nullSafe : Bool) (htarget : Formed target)
    (h : ρ.member target m) : Formed (member target m marker nullSafe)
  | element {target : Expr} {indexer : Member} {args : List Expr} (marker : Option Marker)
    (htarget : Formed target) (hargs : ∀ a ∈ args, Formed a)
    (h : ρ.registry.indexer? target.type = some indexer) : Formed (element target indexer args marker)
  | call {target : Expr} {method : Member} {args : List Expr} (nullSafe : Bool) (htarget : Formed target)
    (hargs : ∀ a ∈ args, Formed a) (hname : IsWord method.name)
    (h : ρ.registry.called? target.type method.name (args.map (·.type)) = some method) :
    Formed (call target method args nullSafe)
  | cast {e : Expr} {type : TypeRef} (he : Formed e) (htype : type.isLegible = true) : Formed (cast e type)
  | create {name : String} {args : List Expr} (hname : IsPath name) (hargs : ∀ a ∈ args, Formed a) :
    Formed (create (.named name) args)
  | typeOf {name : String} (hname : isLegible name.toList = true) : Formed (typeOf (.named name))
  | default {name : String} (hname : IsPath name) : Formed (defaultOf (.named name))
  | paren {e : Expr} (he : Formed e) : Formed (paren e)
  | not {e : Expr} (he : Formed e) : Formed (unary .not e)
  | negate {e : Expr} (he : Formed e) (hdigit : digitLed e.pieces = false) : Formed (unary .negate e)
  | binary {op : BinaryOp} {left right : Expr} {type : TypeRef} (hleft : Formed left) (hright : Formed right)
    (h : op.resultType? ρ.registry left.type right.type = some type) : Formed (binary op left right type)
  | conditional {test ifTrue ifFalse : Expr} {type : TypeRef} (htest : Formed test) (htrue : Formed ifTrue)
    (hfalse : Formed ifFalse) (h : conditionalType? ρ.registry ifTrue.type ifFalse.type = some type) :
    Formed (conditional test ifTrue ifFalse type)
  | coalesce {left right : Expr} {type : TypeRef} (hleft : Formed left) (hright : Formed right)
    (h : coalescedType ρ.registry left.type right.type = type) : Formed (coalesce left right type)
  | fallback {e value : Expr} (index : Nat) (he : Formed e) (hvalue : Formed value) :
    Formed (fallback e value index)

end Expr

/-- No leaf is written like another one, or like an access to a member of another one. -/
structure Rules.Separated (ρ : Rules) : Prop where
  leaf_operands {e : Expr} (h : ρ.leaf e) : e.operands = []
  leaf_pieces {e : Expr} (h : ρ.leaf e) : e.pieces = chars e.key.toList
  leaf_opens {e : Expr} (h : ρ.leaf e) : Opens (chars e.key.toList)
  leaf_chars {e : Expr} (h : ρ.leaf e) : ∀ c ∈ e.key.toList, isNameChar c = true ∨ c = '.' ∨ c = '-'
  leaf_inj {e e' : Expr} (h : ρ.leaf e) (h' : ρ.leaf e') (hkey : e.key = e'.key) : e = e'
  member_name {e : Expr} {m : Member} (h : ρ.member e m) : IsWord m.name
  member_inj {e e' : Expr} {m m' : Member} (h : ρ.member e m) (h' : ρ.member e' m')
    (he : e.unmarked = e'.unmarked) (hname : m.name = m'.name) : m = m'
  apart {e e' : Expr} {m : Member} (he : ρ.leaf e) (h : ρ.member e m) (he' : ρ.leaf e') :
    ¬ Extends e'.key (e.key ++ "." ++ m.name)

namespace Expr

variable {ρ : Rules}

/-! ## Layouts of well-formed expressions -/

section Pieces

variable (e target left right test ifTrue ifFalse : Expr) (m : Member) (args : List Expr) (type : TypeRef)

@[simp] theorem pieces_member (marker : Option Marker) (nullSafe : Bool) :
    (member target m marker nullSafe).pieces = target.pieces ++ (point nullSafe ++ chars m.name.toList) := by
  simp [member, pieces_eq, Form.pieces]

@[simp] theorem pieces_element (marker : Option Marker) :
    (element target m args marker).pieces = target.pieces ++ [.square (commas (args.map pieces))] := by
  simp [element, pieces_eq, Form.pieces]

@[simp] theorem pieces_call (nullSafe : Bool) : (call target m args nullSafe).pieces =
    target.pieces ++ (point nullSafe ++ chars m.name.toList) ++ [.round (commas (args.map pieces))] := by
  simp [call, pieces_eq, Form.pieces]

@[simp] theorem pieces_cast : (cast e type).pieces =
    [.round (.round (ofName type.display.toList) :: e.pieces)] := by
  simp [cast, pieces_eq, Form.pieces]

@[simp] theorem pieces_create : (create type args).pieces =
    chars ("new ".toList ++ type.name.toList) ++ [.round (commas (args.map pieces))] := by
  simp [create, pieces_eq, Form.pieces]

@[simp] theorem pieces_typeOf : (typeOf type).pieces =
    chars "typeof".toList ++ [.round (ofName type.name.toList)] := by
  simp [typeOf, pieces_eq, Form.pieces]

@[simp] theorem pieces_default : (defaultOf type).pieces =
    chars "default".toList ++ [.round (chars type.display.toList)] := by
  simp [defaultOf, pieces_eq, Form.pieces]

@[simp] theorem pieces_paren : (paren e).pieces = [.round e.pieces] := by
  simp [paren, pieces_eq, Form.pieces]

@[simp] theorem pieces_not : (unary .not e).pieces = [.round (.char '!' :: e.pieces)] := by
  simp [unary, pieces_eq, Form.pieces]

@[simp] theorem pieces_negate : (unary .negate e).pieces = [.round (.char '-' :: e.pieces)] := by
  simp [unary, pieces_eq, Form.pieces]

@[simp] theorem pieces_binary (op : BinaryOp) : (binary op left right type).pieces =
    [.round (left.pieces ++ .char ' ' :: (chars op.symbol.toList ++ .char ' ' :: right.pieces))] := by
  simp [binary, pieces_eq, Form.pieces]

@[simp] theorem pieces_conditional : (conditional test ifTrue ifFalse type).pieces =
    [.round (test.pieces ++ .char ' ' :: .char '?' :: .char ' ' ::
      (ifTrue.pieces ++ .char ' ' :: .char ':' :: .char ' ' :: ifFalse.pieces))] := by
  simp [conditional, pieces_eq, Form.pieces]

@[simp] theorem pieces_coalesce : (coalesce left right type).pieces =
    [.round (left.pieces ++ .char ' ' :: .char '?' :: .char '?' :: .char ' ' :: right.pieces)] := by
  simp [coalesce, pieces_eq, Form.pieces]

@[simp] theorem pieces_fallback (index : Nat) : (fallback left right index).pieces =
    chars ("fallback" ++ toString index).toList ++ [.round (commas [left.pieces, right.pieces])] := by
  simp [fallback, pieces_eq, Form.pieces]

@[simp] theorem pieces_text (value : String) : (constant (.string value) type).pieces = [.text value] := by
  simp [constant, pieces_eq, Form.pieces]

end Pieces

theorem toList_intercalate_key {args : List Expr} (h : ∀ a ∈ args, a.key.toList = writeAll a.pieces) :
    (", ".intercalate (args.map key)).toList = writeAll (commas (args.map pieces)) := by
  induction args with
  | nil => rfl
  | cons a args ih =>
    obtain ⟨ha, hargs⟩ := List.forall_mem_cons.mp h
    cases args with
    | nil => simp [ha]
    | cons b args =>
      have ih := ih hargs
      simp only [List.map_cons, String.intercalate_cons_cons, String.toList_append, commas_cons_cons,
        writeAll_append, ha] at ih ⊢
      simp [writeAll, write, ih]

theorem Formed.toList_key {e : Expr} (hρ : ρ.Separated) (h : Formed ρ e) :
    e.key.toList = writeAll e.pieces := by
  induction h with
  | leaf h => rw [hρ.leaf_pieces h, writeAll_chars]
  | text value =>
    rw [pieces_text]
    simp [constant, Expr.key_eq, Form.key, Constant.key, writeAll, write]
  | member marker nullSafe htarget h ih =>
    rw [pieces_member, writeAll_append, ← ih]
    cases nullSafe <;> simp [Expr.member, Expr.key_eq, Form.key, point, writeAll, write]
  | element marker htarget hargs h ih ihargs =>
    rw [pieces_element, writeAll_append, ← ih]
    simp [Expr.element, Expr.key_eq, Form.key, writeAll, write, toList_intercalate_key ihargs]
  | call nullSafe htarget hargs hname h ih ihargs =>
    rw [pieces_call, writeAll_append, writeAll_append, ← ih]
    cases nullSafe <;> simp [Expr.call, Expr.key_eq, Form.key, point, writeAll, write,
      toList_intercalate_key ihargs]
  | cast he htype ih =>
    rw [pieces_cast]
    simp [Expr.cast, Expr.key_eq, Form.key, writeAll, write, ih, writeAll_ofName]
  | create hname hargs ihargs =>
    rw [pieces_create]
    simp [Expr.create, Expr.key_eq, Form.key, writeAll, write, toList_intercalate_key ihargs]
  | typeOf hname =>
    rw [pieces_typeOf]
    simp [Expr.typeOf, Expr.key_eq, Form.key, writeAll, write, writeAll_ofName]
  | default hname =>
    rw [pieces_default]
    simp [Expr.defaultOf, Expr.key_eq, Form.key, writeAll, write]
  | paren he ih =>
    rw [pieces_paren]
    simp [Expr.paren, Expr.key_eq, Form.key, writeAll, write, ih]
  | not he ih =>
    rw [pieces_not]
    simp [Expr.unary, Expr.key_eq, Form.key, writeAll, write, ih]
  | negate he hdigit ih =>
    rw [pieces_negate]
    simp [Expr.unary, Expr.key_eq, Form.key, writeAll, write, ih]
  | binary hleft hright h ihleft ihright =>
    rw [pieces_binary]
    simp [Expr.binary, Expr.key_eq, Form.key, writeAll, write, ihleft, ihright]
  | conditional htest htrue hfalse h ihtest ihtrue ihfalse =>
    rw [pieces_conditional]
    simp [Expr.conditional, Expr.key_eq, Form.key, writeAll, write, ihtest, ihtrue, ihfalse]
  | coalesce hleft hright h ihleft ihright =>
    rw [pieces_coalesce]
    simp [Expr.coalesce, Expr.key_eq, Form.key, writeAll, write, ihleft, ihright]
  | fallback index he hvalue ih ihvalue =>
    rw [pieces_fallback]
    simp [Expr.fallback, Expr.key_eq, Form.key, writeAll, write, ih, ihvalue]

/-! ## Other rules -/

/-- What the first rules allow of a node, the others allow too. -/
def Formed.Transfers (ρ ρ' : Rules) (n : Expr) : Prop :=
  (ρ.leaf n → ρ'.leaf n) ∧ ∀ m, Formed ρ n → ρ.member n m → ρ'.member n m

/-- Rules over the same registry that allow what occurs in an expression. -/
theorem Formed.transfer {ρ' : Rules} (hregistry : ρ.registry = ρ'.registry) {e : Expr} (h : Formed ρ e)
    (hnodes : ∀ n ∈ e.nodes, Formed.Transfers ρ ρ' n) : Formed ρ' e := by
  have hoperand {e o : Expr} (ho : o ∈ e.operands) (hnodes : ∀ n ∈ e.nodes, Formed.Transfers ρ ρ' n) :
      ∀ n ∈ o.nodes, Formed.Transfers ρ ρ' n :=
    fun n hn => hnodes n (mem_nodes.mpr (Or.inr ⟨o, ho, hn⟩))
  induction h with
  | leaf h => exact .leaf ((hnodes _ (self_mem_nodes _)).1 h)
  | text value => exact .text value
  | @member target m marker nullSafe htarget h ih =>
    have htarget_nodes := hoperand (List.mem_singleton_self target) hnodes
    exact .member marker nullSafe (ih htarget_nodes) ((htarget_nodes _ (self_mem_nodes _)).2 m htarget h)
  | element marker htarget hargs h ih ihargs =>
    refine .element marker (ih (hoperand List.mem_cons_self hnodes)) ?_ (hregistry ▸ h)
    exact fun a ha => ihargs a ha (hoperand (List.mem_cons_of_mem _ ha) hnodes)
  | call nullSafe htarget hargs hname h ih ihargs =>
    refine .call nullSafe (ih (hoperand List.mem_cons_self hnodes)) ?_ hname (hregistry ▸ h)
    exact fun a ha => ihargs a ha (hoperand (List.mem_cons_of_mem _ ha) hnodes)
  | cast he htype ih => exact .cast (ih (hoperand (List.mem_singleton_self _) hnodes)) htype
  | create hname hargs ihargs => exact .create hname fun a ha => ihargs a ha (hoperand ha hnodes)
  | typeOf hname => exact .typeOf hname
  | default hname => exact .default hname
  | paren he ih => exact .paren (ih (hoperand (List.mem_singleton_self _) hnodes))
  | not he ih => exact .not (ih (hoperand (List.mem_singleton_self _) hnodes))
  | negate he hdigit ih => exact .negate (ih (hoperand (List.mem_singleton_self _) hnodes)) hdigit
  | binary hleft hright h ihleft ihright =>
    exact .binary (ihleft (hoperand List.mem_cons_self hnodes))
      (ihright (hoperand (List.mem_cons_of_mem _ (List.mem_singleton_self _)) hnodes)) (hregistry ▸ h)
  | conditional htest htrue hfalse h ihtest ihtrue ihfalse =>
    exact .conditional (ihtest (hoperand (by simp [Expr.conditional]) hnodes))
      (ihtrue (hoperand (by simp [Expr.conditional]) hnodes)) (ihfalse (hoperand (by simp [Expr.conditional]) hnodes))
      (hregistry ▸ h)
  | coalesce hleft hright h ihleft ihright =>
    exact .coalesce (ihleft (hoperand List.mem_cons_self hnodes))
      (ihright (hoperand (List.mem_cons_of_mem _ (List.mem_singleton_self _)) hnodes)) (hregistry ▸ h)
  | fallback index he hvalue ih ihvalue =>
    exact .fallback index (ih (hoperand List.mem_cons_self hnodes))
      (ihvalue (hoperand (List.mem_cons_of_mem _ (List.mem_singleton_self _)) hnodes))

end Expr

end DataBinding
