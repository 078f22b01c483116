import DataBinding.Proofs.Expr.Pieces
import DataBinding.Proofs.Expr.Shape

/-!
# Layouts of expressions

The written form of an expression as a list of pieces. What is written last, and what is written in a
group, tells how the expression is made up: a group holds an operator between blanks, a sign in front or a
type in brackets, and what has arguments ends with them.
-/
namespace DataBinding
open Text

namespace Piece

def chars (cs : List Char) : List Piece := cs.map .char

@[simp] theorem chars_nil : chars [] = [] := rfl

@[simp] theorem chars_cons (c : Char) (cs : List Char) : chars (c :: cs) = .char c :: chars cs := rfl

@[simp] theorem chars_append (cs ds : List Char) : chars (cs ++ ds) = chars cs ++ chars ds := List.map_append

@[simp] theorem chars_eq_nil {cs : List Char} : chars cs = [] ↔ cs = [] := List.map_eq_nil_iff

@[simp] theorem chars_inj {cs ds : List Char} : chars cs = chars ds ↔ cs = ds :=
  List.map_inj_right fun _ _ => Piece.char.inj

@[simp] theorem mem_chars {c : Char} {cs : List Char} : .char c ∈ chars cs ↔ c ∈ cs := by
  simp [chars]

@[simp] theorem writeAll_chars (cs : List Char) : writeAll (chars cs) = cs := by
  induction cs with
  | nil => rfl
  | cons c cs ih => simp [writeAll, write, ih]

/-! ## Names of types -/

/-- The pieces of the name of a type. The brackets of arrays are empty groups. -/
def ofName : List Char → List Piece
  | '[' :: ']' :: cs => .square [] :: ofName cs
  | c :: cs => .char c :: ofName cs
  | [] => []

/-- Brackets stand in the name only for arrays, and there are no quotes in it. -/
def isLegible : List Char → Bool
  | '[' :: ']' :: cs => isLegible cs
  | c :: cs => !marks.contains c && isLegible cs
  | [] => true

theorem writeAll_ofName (cs : List Char) : writeAll (ofName cs) = cs := by
  fun_induction ofName cs with
  | case1 cs ih => simp [writeAll, write, ih]
  | case2 c cs _ ih => simp [writeAll, write, ih]
  | case3 => rfl

theorem ofName_inj {cs ds : List Char} (h : ofName cs = ofName ds) : cs = ds := by
  rw [← writeAll_ofName cs, h, writeAll_ofName]

theorem proper_ofName {cs : List Char} (h : isLegible cs = true) : ∀ p ∈ ofName cs, p.Proper := by
  fun_induction ofName cs with
  | case1 cs ih =>
    rw [isLegible] at h
    exact List.forall_mem_cons.mpr ⟨.square (by simp), ih h⟩
  | case2 c cs hne ih =>
    rw [isLegible] at h
    · simp only [Bool.and_eq_true, Bool.not_eq_true', List.contains_eq_mem, decide_eq_false_iff_not] at h
      exact List.forall_mem_cons.mpr ⟨.char h.1, ih h.2⟩
    · exact hne
  | case3 => simp

theorem isLegible_of_forall {cs : List Char} (h : ∀ c ∈ cs, c ∉ marks) : isLegible cs = true := by
  fun_induction isLegible cs with
  | case1 cs ih => exact absurd (by decide) (h '[' (by simp))
  | case2 c cs _ ih =>
    obtain ⟨hc, hcs⟩ := List.forall_mem_cons.mp h
    simp [hc, ih hcs]
  | case3 => rfl

theorem isLegible_append {cs : List Char} (h : isLegible cs = true) : isLegible (cs ++ ['?']) = true := by
  fun_induction isLegible cs with
  | case1 cs ih => exact ih h
  | case2 c cs hne ih =>
    simp only [Bool.and_eq_true] at h
    rw [List.cons_append, isLegible, h.1, ih h.2]
    · rfl
    · intro ds hc hds
      cases cs with
      | nil => cases hds
      | cons d cs =>
        obtain ⟨rfl, -⟩ := List.cons.inj hds
        exact hne cs hc rfl
  | case3 => rfl

/-! ## Blanks before operators -/

/-- Is this a blank with no name behind it? -/
def isBreak : Piece → List Piece → Bool
  | .char ' ', .char c :: _ => !isNameChar c
  | .char ' ', _ => true
  | _, _ => false

/-- What stands before and behind the first blank with no name behind it. -/
def cutBreak : List Piece → Option (List Piece × List Piece)
  | [] => none
  | p :: ps =>
    if isBreak p ps then some ([], ps) else (cutBreak ps).map fun (front, rest) => (p :: front, rest)

/-- No such blank comes from the pieces, whatever follows them. -/
def Unbroken (ps : List Piece) : Prop :=
  ∀ rest, cutBreak (ps ++ rest) = (cutBreak rest).map fun (front, back) => (ps ++ front, back)

theorem unbroken_nil : Unbroken [] := by
  intro rest
  simp

theorem Unbroken.append {ps qs : List Piece} (hp : Unbroken ps) (hq : Unbroken qs) : Unbroken (ps ++ qs) := by
  intro rest
  rw [List.append_assoc, hp, hq]
  cases cutBreak rest <;> simp

theorem unbroken_singleton {p : Piece} (hp : p ≠ .char ' ') : Unbroken [p] := by
  intro rest
  have hbreak : isBreak p rest = false := by
    unfold isBreak
    split <;> first | rfl | exact absurd rfl hp
  simp [cutBreak, hbreak]

theorem Unbroken.cons {p : Piece} {ps : List Piece} (hp : p ≠ .char ' ') (h : Unbroken ps) :
    Unbroken (p :: ps) :=
  (unbroken_singleton hp).append h

theorem unbroken_of_not_mem {ps : List Piece} (h : .char ' ' ∉ ps) : Unbroken ps := by
  induction ps with
  | nil => exact unbroken_nil
  | cons p ps ih =>
    rw [List.mem_cons, not_or] at h
    exact (ih h.2).cons fun hp => h.1 hp.symm

theorem unbroken_blank_name {c : Char} (hc : isNameChar c = true) : Unbroken [.char ' ', .char c] := by
  intro rest
  have hc' : (.char c : Piece) ≠ .char ' ' := by
    rintro h
    cases h
    revert hc
    decide
  have hrest := unbroken_singleton hc' rest
  have hbreak : isBreak (.char ' ') (.char c :: rest) = false := by simp [isBreak, hc]
  rw [List.singleton_append] at hrest
  rw [List.cons_append, List.singleton_append, cutBreak, hrest]
  cases cutBreak rest <;> simp [hbreak]

theorem Unbroken.cutBreak_eq_none {ps : List Piece} (h : Unbroken ps) : cutBreak ps = none := by
  simpa [cutBreak] using h []

theorem Unbroken.cutBreak_append {ps : List Piece} (h : Unbroken ps) {c : Char} (hc : isNameChar c = false)
    (rest : List Piece) : cutBreak (ps ++ .char ' ' :: .char c :: rest) = some (ps, .char c :: rest) := by
  rw [h]
  simp [cutBreak, isBreak, hc]

/-! ## Commas -/

def commas (parts : List (List Piece)) : List Piece := [.char ',', .char ' '].intercalate parts

@[simp] theorem commas_nil : commas [] = [] := rfl

@[simp] theorem commas_singleton (ps : List Piece) : commas [ps] = ps := by simp [commas]

@[simp] theorem commas_cons_cons (ps qs : List Piece) (parts : List (List Piece)) :
    commas (ps :: qs :: parts) = ps ++ .char ',' :: .char ' ' :: commas (qs :: parts) := by
  simp [commas, List.intercalate_cons_cons]

/-- Parts without commas are told apart by the commas between them. -/
theorem commas_inj {as bs : List (List Piece)} (has : ∀ ps ∈ as, ps ≠ [] ∧ .char ',' ∉ ps)
    (hbs : ∀ ps ∈ bs, ps ≠ [] ∧ .char ',' ∉ ps) (h : commas as = commas bs) : as = bs := by
  have hnonempty {p : List Piece} {ps : List (List Piece)} (hp : p ≠ []) : commas (p :: ps) ≠ [] := by
    cases ps <;> simp [hp]
  have hsplit {p q : List Piece} {ps : List (List Piece)} {qs : List Piece} (hq : .char ',' ∉ q) :
      commas (p :: qs :: ps) ≠ q := by
    rintro rfl
    simp at hq
  induction as generalizing bs with
  | nil =>
    cases bs with
    | nil => rfl
    | cons b bs => exact absurd h.symm (hnonempty (hbs b List.mem_cons_self).1)
  | cons a as ih =>
    obtain ⟨⟨hne, hfree⟩, has⟩ := List.forall_mem_cons.mp has
    cases bs with
    | nil => exact absurd h (hnonempty hne)
    | cons b bs =>
      obtain ⟨⟨hne', hfree'⟩, hbs'⟩ := List.forall_mem_cons.mp hbs
      cases as with
      | nil =>
        cases bs with
        | nil => simpa using h
        | cons b' bs => exact absurd (h.symm.trans (commas_singleton a)) (hsplit hfree)
      | cons a' as =>
        cases bs with
        | nil => exact absurd (h.trans (commas_singleton b)) (hsplit hfree')
        | cons b' bs =>
          rw [commas_cons_cons, commas_cons_cons] at h
          obtain ⟨rfl, htail⟩ := append_cons_inj hfree hfree' h
          rw [ih has hbs' (List.cons.inj htail).2]

/-! ## Fronts of written forms -/

/-- Does the piece go on with what stands before it? -/
def continues : Piece → Bool
  | .char c => c == '.' || c == '?'
  | .square _ => true
  | _ => false

/-- What a written form may start with. A sign starts numbers only, and brackets are written around the
whole or an access follows them. -/
inductive Opens : List Piece → Prop where
  | name {c : Char} {ps : List Piece} (hc : isNameChar c = true) : Opens (.char c :: ps)
  | minus {d : Char} {ps : List Piece} (hd : d.isDigit = true) : Opens (.char '-' :: .char d :: ps)
  | text {value : String} {ps : List Piece} : Opens (.text value :: ps)
  | group {parts : List Piece} : Opens [.round parts]
  | continued {parts ps : List Piece} {p : Piece} (hp : p.continues = true) : Opens (.round parts :: p :: ps)

theorem Opens.append {ps qs : List Piece} (h : Opens ps) (hqs : ∀ q ∈ qs.head?, q.continues = true) :
    Opens (ps ++ qs) := by
  cases h with
  | name hc => exact .name hc
  | minus hd => exact .minus hd
  | text => exact .text
  | group =>
    cases qs with
    | nil => exact .group
    | cons q qs => exact .continued (hqs q rfl)
  | continued hp => exact .continued hp

theorem Opens.ne_nil {ps : List Piece} (h : Opens ps) : ps ≠ [] := by
  cases h <;> simp

/-! ## Views -/

def point (nullSafe : Bool) : List Piece := chars (if nullSafe then ['?', '.'] else ['.'])

/-- How a written form is made up. -/
inductive View where
  | word
  | text (value : String)
  | element (target args : List Piece)
  | call (front args : List Piece)
  | create (name args : List Piece)
  | typeOf (name : List Piece)
  | default (name : List Piece)
  | cast (name operand : List Piece)
  | paren (inner : List Piece)
  | not (operand : List Piece)
  | negate (operand : List Piece)
  | binary (left : List Piece) (symbol : List Char) (right : List Piece)
  | conditional (test ifTrue ifFalse : List Piece)
  | coalesce (left right : List Piece)

def isChar : Piece → Bool
  | .char _ => true
  | _ => false

def applied (front args : List Piece) : View :=
  if writeAll front = "typeof".toList then .typeOf args
  else if writeAll front = "default".toList then .default args
  else if front.all isChar && "new ".toList.isPrefixOf (writeAll front) then .create (front.drop 4) args
  else .call front args

/-- The characters up to a blank, and what follows it. -/
def upToBlank : List Piece → List Char × List Piece
  | .char c :: ps => if c = ' ' then ([], ps) else (c :: (upToBlank ps).1, (upToBlank ps).2)
  | ps => ([], ps)

def operator (left rest : List Piece) : View :=
  let (symbol, right) := upToBlank rest
  if symbol = ['?', '?'] then .coalesce left right
  else if symbol = ['?'] then
    match cutBreak right with
    | some (ifTrue, .char ':' :: .char ' ' :: ifFalse) => .conditional left ifTrue ifFalse
    | _ => .word
  else .binary left symbol right

def digitLed : List Piece → Bool
  | .char c :: _ => c.isDigit
  | _ => false

def inside (ps : List Piece) : View :=
  match cutBreak ps with
  | some (left, rest) => operator left rest
  | none =>
    match ps with
    | .char '!' :: operand => .not operand
    | .char '-' :: operand => if digitLed operand then .paren ps else .negate operand
    | .round name :: p :: rest => if p.continues then .paren ps else .cast name (p :: rest)
    | _ => .paren ps

def view (ps : List Piece) : View :=
  match ps.reverse with
  | .square args :: target => .element target.reverse args
  | [.round parts] => inside parts
  | .round args :: front => applied front.reverse args
  | .text value :: _ => .text value
  | _ => .word

theorem view_chars {front : List Piece} {cs : List Char} (hcs : cs ≠ []) : view (front ++ chars cs) = .word := by
  obtain ⟨ds, d, rfl⟩ := List.eq_nil_or_concat cs |>.resolve_left hcs
  simp [view, chars]

theorem view_text (value : String) : view [.text value] = .text value := rfl

theorem view_square (target args : List Piece) : view (target ++ [.square args]) = .element target args := by
  simp [view]

theorem view_round {front : List Piece} (hfront : front ≠ []) (args : List Piece) :
    view (front ++ [.round args]) = applied front args := by
  obtain ⟨ps, p, rfl⟩ := List.eq_nil_or_concat front |>.resolve_left hfront
  simp [view]

theorem view_group (ps : List Piece) : view [.round ps] = inside ps := rfl

theorem applied_typeOf (args : List Piece) : applied (chars "typeof".toList) args = .typeOf args := by
  rw [applied, writeAll_chars, if_pos rfl]

theorem applied_default (args : List Piece) : applied (chars "default".toList) args = .default args := by
  rw [applied, writeAll_chars, if_neg (by decide), if_pos rfl]

theorem applied_create (name : List Char) (args : List Piece) :
    applied (chars ("new ".toList ++ name)) args = .create (chars name) args := by
  have hall : (chars ("new ".toList ++ name)).all isChar = true := by simp [chars, isChar]
  simp only [applied, writeAll_chars, hall]
  simp

theorem eq_chars_of_isChar {ps : List Piece} (h : ∀ p ∈ ps, p.isChar = true) : ∃ cs, ps = chars cs := by
  induction ps with
  | nil => exact ⟨[], rfl⟩
  | cons p ps ih =>
    obtain ⟨hp, hps⟩ := List.forall_mem_cons.mp h
    obtain ⟨cs, rfl⟩ := ih hps
    cases p with
    | char c => exact ⟨c :: cs, rfl⟩
    | _ => cases hp

/-- What a call is written on has a point, and blanks only behind brackets. -/
theorem applied_call {front : List Piece} (hpoint : '.' ∈ writeAll front)
    (hflat : ∀ cs, front = chars cs → ' ' ∉ cs) (args : List Piece) : applied front args = .call front args := by
  have htypeOf : writeAll front ≠ "typeof".toList := fun h => absurd (h ▸ hpoint) (by decide)
  have hdefault : writeAll front ≠ "default".toList := fun h => absurd (h ▸ hpoint) (by decide)
  have hcreate : (front.all isChar && "new ".toList.isPrefixOf (writeAll front)) = false := by
    by_contra h
    obtain ⟨hall, hnew⟩ := Bool.and_eq_true_iff.mp (Bool.not_eq_false _ ▸ h)
    obtain ⟨cs, rfl⟩ := eq_chars_of_isChar (List.all_eq_true.mp hall)
    rw [writeAll_chars] at hnew
    exact hflat cs rfl ((List.isPrefixOf_iff_prefix.mp hnew).subset (by decide))
  rw [applied, if_neg htypeOf, if_neg hdefault, hcreate]
  rfl

theorem upToBlank_append {cs : List Char} (h : ' ' ∉ cs) (ps : List Piece) :
    upToBlank (chars cs ++ .char ' ' :: ps) = (cs, ps) := by
  induction cs with
  | nil => rfl
  | cons c cs ih =>
    rw [List.mem_cons, not_or] at h
    have hc : c ≠ ' ' := fun hc => h.1 hc.symm
    simp [upToBlank, hc, ih h.2]

section Inside

variable {ps : List Piece} (hunbroken : Unbroken ps)
include hunbroken

theorem inside_not : inside (.char '!' :: ps) = .not ps := by
  unfold inside
  rw [(hunbroken.cons (by simp)).cutBreak_eq_none]
  rfl

theorem inside_negate (hdigit : digitLed ps = false) : inside (.char '-' :: ps) = .negate ps := by
  unfold inside
  rw [(hunbroken.cons (by simp)).cutBreak_eq_none]
  simp [hdigit]

theorem inside_cast (hopens : Opens ps) (name : List Piece) : inside (.round name :: ps) = .cast name ps := by
  unfold inside
  rw [(hunbroken.cons (by simp)).cutBreak_eq_none]
  cases hopens with
  | @name c ps hc =>
    have hcontinues : Piece.continues (.char c) = false := by
      have hpoint : c ≠ '.' := by rintro rfl; revert hc; decide
      have hquestion : c ≠ '?' := by rintro rfl; revert hc; decide
      simp [continues, hpoint, hquestion]
    simp [hcontinues]
  | _ => rfl

theorem inside_paren (hopens : Opens ps) : inside ps = .paren ps := by
  unfold inside
  rw [hunbroken.cutBreak_eq_none]
  cases hopens with
  | @name c ps hc =>
    have hnot : c ≠ '!' := by rintro rfl; revert hc; decide
    have hminus : c ≠ '-' := by rintro rfl; revert hc; decide
    simp [hnot, hminus]
  | minus hd => simp [digitLed, hd]
  | text => rfl
  | group => rfl
  | continued hp => simp [hp]

theorem inside_operator {c : Char} (hc : isNameChar c = false) (rest : List Piece) :
    inside (ps ++ .char ' ' :: .char c :: rest) = operator ps (.char c :: rest) := by
  unfold inside
  rw [hunbroken.cutBreak_append hc]

theorem inside_binary (op : BinaryOp) (right : List Piece) :
    inside (ps ++ .char ' ' :: (chars op.symbol.toList ++ .char ' ' :: right)) =
      .binary ps op.symbol.toList right := by
  obtain ⟨c, cs, hop, hc⟩ : ∃ c cs, op.symbol.toList = c :: cs ∧ isNameChar c = false := by
    cases op <;> exact ⟨_, _, rfl, by decide⟩
  have hblank : ' ' ∉ op.symbol.toList := by cases op <;> decide
  have hsymbol : op.symbol.toList ≠ ['?', '?'] ∧ op.symbol.toList ≠ ['?'] := by cases op <;> decide
  have hup := upToBlank_append hblank right
  rw [hop] at hup ⊢
  rw [chars_cons, List.cons_append, inside_operator hunbroken hc]
  rw [chars_cons, List.cons_append] at hup
  rw [hop] at hsymbol
  simp only [operator, hup, hsymbol, if_false]

theorem inside_coalesce (right : List Piece) :
    inside (ps ++ .char ' ' :: .char '?' :: .char '?' :: .char ' ' :: right) = .coalesce ps right := by
  rw [inside_operator hunbroken (by decide)]
  rfl

theorem inside_conditional {ifTrue : List Piece} (htrue : Unbroken ifTrue) (ifFalse : List Piece) :
    inside (ps ++ .char ' ' :: .char '?' :: .char ' ' ::
      (ifTrue ++ .char ' ' :: .char ':' :: .char ' ' :: ifFalse)) = .conditional ps ifTrue ifFalse := by
  have hcut := htrue.cutBreak_append (c := ':') (by decide) (.char ' ' :: ifFalse)
  have hup := upToBlank_append (show ' ' ∉ ['?'] by decide)
    (ifTrue ++ .char ' ' :: .char ':' :: .char ' ' :: ifFalse)
  rw [inside_operator hunbroken (by decide)]
  rw [chars_cons, List.cons_append, chars_nil, List.nil_append] at hup
  simp only [operator, hup, hcut]
  rfl

end Inside

/-! ## Tidy layouts -/

theorem not_mem_marks {c : Char} (h : isNameChar c = true ∨ c ∈ ['.', '?', '-', ' ']) : c ∉ marks := by
  have hmarks : ∀ d ∈ marks, isNameChar d = false ∧ d ∉ ['.', '?', '-', ' '] := by decide
  intro hc
  rcases h with h | h
  · simp [(hmarks c hc).1] at h
  · exact (hmarks c hc).2 h

theorem proper_chars {cs : List Char} (h : ∀ c ∈ cs, c ∉ marks) : ∀ p ∈ chars cs, p.Proper := by
  intro p hp
  obtain ⟨c, hc, rfl⟩ := List.mem_map.mp hp
  exact .char (h c hc)

/-- What the layouts of well-formed expressions have in common. -/
structure Tidy (ps : List Piece) : Prop where
  opens : Opens ps
  unbroken : Unbroken ps
  comma : .char ',' ∉ ps
  flat : ∀ cs, ps = chars cs → ' ' ∉ cs
  last : ∀ p ∈ ps.getLast?, p ≠ .char '?'
  proper : ∀ p ∈ ps, p.Proper

variable {ps : List Piece} {cs : List Char}

theorem tidy_chars (hopens : Opens (chars cs)) (hcs : ∀ c ∈ cs, isNameChar c = true ∨ c = '.' ∨ c = '-') :
    Tidy (chars cs) := by
  have hother {c : Char} (hname : isNameChar c = false) (hpoint : c ≠ '.') (hminus : c ≠ '-') : c ∉ cs := by
    intro hc
    rcases hcs c hc with h | h | h
    · simp [hname] at h
    · exact hpoint h
    · exact hminus h
  have hblank : ' ' ∉ cs := hother (by decide) (by decide) (by decide)
  have hcomma : ',' ∉ cs := hother (by decide) (by decide) (by decide)
  have hquestion : '?' ∉ cs := hother (by decide) (by decide) (by decide)
  refine ⟨hopens, unbroken_of_not_mem (by simpa using hblank), by simpa using hcomma, ?_, ?_, ?_⟩
  · intro ds hds
    rwa [← chars_inj.mp hds]
  · intro p hp hq
    have hmem := List.mem_of_getLast? hp
    rw [hq, mem_chars] at hmem
    exact hquestion hmem
  · refine proper_chars fun c hc => not_mem_marks ?_
    rcases hcs c hc with h | rfl | rfl
    · exact Or.inl h
    · decide
    · decide

/-- Accesses are written behind what they belong to. -/
theorem Tidy.append (h : Tidy ps) {qs : List Piece} (hne : qs ≠ [])
    (hhead : ∀ q ∈ qs.head?, q.continues = true) (hblank : .char ' ' ∉ qs) (hcomma : .char ',' ∉ qs)
    (hlast : ∀ p ∈ qs.getLast?, p ≠ .char '?') (hproper : ∀ p ∈ qs, p.Proper) : Tidy (ps ++ qs) where
  opens := h.opens.append hhead
  unbroken := h.unbroken.append (unbroken_of_not_mem hblank)
  comma := by simp [h.comma, hcomma]
  flat := by
    intro cs hcs
    obtain ⟨ds, es, rfl, hds, hes⟩ := List.map_eq_append_iff.mp hcs.symm
    have hds := h.flat ds hds.symm
    have hes : ' ' ∉ es := by
      rw [← hes] at hblank
      simpa using hblank
    simp [hds, hes]
  last := by
    rw [List.getLast?_append_of_ne_nil _ hne]
    exact hlast
  proper := List.forall_mem_append.mpr ⟨h.proper, hproper⟩

theorem proper_access (nullSafe : Bool) {name : List Char} (hname : ∀ c ∈ name, isNameChar c = true) :
    ∀ p ∈ point nullSafe ++ chars name, p.Proper := by
  rw [List.forall_mem_append]
  refine ⟨proper_chars ?_, proper_chars fun c hc => not_mem_marks (Or.inl (hname c hc))⟩
  cases nullSafe <;> decide

theorem not_mem_access (nullSafe : Bool) {name : List Char} (hname : ∀ c ∈ name, isNameChar c = true) {c : Char}
    (hc : isNameChar c = false) (hpoint : c ≠ '.') (hquestion : c ≠ '?') :
    .char c ∉ point nullSafe ++ chars name := by
  rw [List.mem_append, not_or, point, mem_chars, mem_chars]
  constructor
  · cases nullSafe <;> simp [hpoint, hquestion]
  · exact fun hmem => by simp [hname c hmem] at hc

theorem head_point (nullSafe : Bool) (ps : List Piece) :
    ∀ q ∈ (point nullSafe ++ ps).head?, q.continues = true := by
  cases nullSafe <;> simp [point, continues]

theorem Tidy.member (h : Tidy ps) (nullSafe : Bool) {name : List Char} (hne : name ≠ [])
    (hname : ∀ c ∈ name, isNameChar c = true) : Tidy (ps ++ (point nullSafe ++ chars name)) := by
  refine h.append (by simp [hne]) (head_point nullSafe _)
    (not_mem_access nullSafe hname (by decide) (by decide) (by decide))
    (not_mem_access nullSafe hname (by decide) (by decide) (by decide)) ?_ (proper_access nullSafe hname)
  rw [List.getLast?_append_of_ne_nil _ (by simpa using hne)]
  intro p hp hq
  have hmem := List.mem_of_getLast? hp
  rw [hq, mem_chars] at hmem
  have := hname _ hmem
  revert this
  decide

theorem Tidy.call (h : Tidy ps) (nullSafe : Bool) {name : List Char}
    (hname : ∀ c ∈ name, isNameChar c = true) {args : List Piece} (hargs : ∀ p ∈ args, p.Proper) :
    Tidy (ps ++ (point nullSafe ++ chars name) ++ [.round args]) := by
  rw [List.append_assoc]
  have hblank := not_mem_access nullSafe hname (c := ' ') (by decide) (by decide) (by decide)
  have hcomma := not_mem_access nullSafe hname (c := ',') (by decide) (by decide) (by decide)
  refine h.append (by simp) ?_ (by simpa using hblank) (by simpa using hcomma) (by simp) ?_
  · rw [List.append_assoc]
    exact head_point nullSafe _
  · exact List.forall_mem_append.mpr ⟨proper_access nullSafe hname, by simpa using .round hargs⟩

theorem Tidy.element (h : Tidy ps) {args : List Piece} (hargs : ∀ p ∈ args, p.Proper) :
    Tidy (ps ++ [.square args]) :=
  h.append (by simp) (by simp [continues]) (by simp) (by simp) (by simp) (by simpa using .square hargs)

theorem tidy_group {parts : List Piece} (hparts : ∀ p ∈ parts, p.Proper) : Tidy [.round parts] where
  opens := .group
  unbroken := unbroken_singleton (by simp)
  comma := by simp
  flat := by
    intro cs hcs
    cases cs <;> simp at hcs
  last := by simp
  proper := by simpa using .round hparts

theorem tidy_text (value : String) : Tidy [.text value] where
  opens := .text
  unbroken := unbroken_singleton (by simp)
  comma := by simp
  flat := by
    intro cs hcs
    cases cs <;> simp at hcs
  last := by simp
  proper := by simpa using .text value

theorem tidy_applied {c : Char} (hc : isNameChar c = true) (hunbroken : Unbroken (chars (c :: cs)))
    (hcomma : ',' ∉ c :: cs) (hcs : ∀ d ∈ c :: cs, d ∉ marks) {args : List Piece}
    (hargs : ∀ p ∈ args, p.Proper) : Tidy (chars (c :: cs) ++ [.round args]) where
  opens := .name hc
  unbroken := hunbroken.append (unbroken_singleton (by simp))
  comma := by
    rw [List.mem_append, mem_chars]
    simp [hcomma]
  flat := by
    intro ds hds
    have hmem : (.round args : Piece) ∈ chars ds := by simp [← hds]
    simp [chars] at hmem
  last := by
    rw [List.getLast?_append_of_ne_nil _ (by simp)]
    simp
  proper := List.forall_mem_append.mpr ⟨proper_chars hcs, by simpa using .round hargs⟩

end Piece

/-! ## Pieces of expressions -/

open Piece

/-- The pieces of an expression whose operands have the given pieces. -/
def Form.pieces (form : Form) (type : TypeRef) (parts : List (List Piece)) : List Piece :=
  let operand (i : Nat) : List Piece := parts.getD i []
  match form with
  | .constant (.string value) => [.text value]
  | .constant value => chars value.key.toList
  | .var name => chars name.toList
  | .typeRef => chars type.name.toList
  | .member m _ nullSafe => operand 0 ++ (point nullSafe ++ chars m.name.toList)
  | .element _ _ => operand 0 ++ [.square (commas (parts.drop 1))]
  | .call m nullSafe =>
    operand 0 ++ (point nullSafe ++ chars m.name.toList) ++ [.round (commas (parts.drop 1))]
  | .cast => [.round (.round (ofName type.display.toList) :: operand 0)]
  | .paren => [.round (operand 0)]
  | .unary .not => [.round (.char '!' :: operand 0)]
  | .unary .negate => [.round (.char '-' :: operand 0)]
  | .binary op => [.round (operand 0 ++ .char ' ' :: (chars op.symbol.toList ++ .char ' ' :: operand 1))]
  | .conditional =>
    [.round (operand 0 ++ .char ' ' :: .char '?' :: .char ' ' ::
      (operand 1 ++ .char ' ' :: .char ':' :: .char ' ' :: operand 2))]
  | .coalesce => [.round (operand 0 ++ .char ' ' :: .char '?' :: .char '?' :: .char ' ' :: operand 1)]
  | .create => chars ("new ".toList ++ type.name.toList) ++ [.round (commas parts)]
  | .typeOf t => chars "typeof".toList ++ [.round (ofName t.name.toList)]
  | .default => chars "default".toList ++ [.round (chars type.display.toList)]
  | .fallback index => chars ("fallback" ++ toString index).toList ++ [.round (commas parts)]
  -- a text with braces does not fall into pieces
  | .interpolated _ => []

namespace Expr

mutual

def pieces : Expr → List Piece
  | ⟨form, type, operands⟩ => form.pieces type (piecesAll operands)

def piecesAll : List Expr → List (List Piece)
  | [] => []
  | e :: es => e.pieces :: piecesAll es

end

theorem piecesAll_eq_map (es : List Expr) : piecesAll es = es.map pieces := by
  induction es with
  | nil => rfl
  | cons e es ih => simp [piecesAll, ih]

theorem pieces_eq (form : Form) (type : TypeRef) (operands : List Expr) :
    pieces ⟨form, type, operands⟩ = form.pieces type (operands.map pieces) := by
  rw [pieces, piecesAll_eq_map]

end Expr

end DataBinding
