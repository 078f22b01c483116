import DataBinding.Proofs.Binding.DataType
import DataBinding.Proofs.Grammar.Faults

/-!
# Boundaries of characters

Reading goes through a declaration by offsets that count bytes, and a piece may be cut off only between two
characters. Here the segments are read once more by offsets alone, each move by the number of bytes that the
characters passed are known to take. Every cut is checked: one inside a character or beyond the end gives
nothing. From every place that reading comes to, all cuts give something, and what they give is what `Segment`
finds there. So reading stays inside the text, and as every argument takes a byte at least, it comes to an end.
-/
namespace DataBinding
open Text

/-! ## Offsets of characters -/

namespace Text

def firstByte? (sort : Char → Bool) : List Char → Option Nat
  | [] => none
  | c :: cs => if sort c then some 0 else (firstByte? sort cs).map (c.utf8Size + ·)

def firstOccurrence? (word : List Char) : List Char → Option Nat
  | [] => none
  | c :: cs =>
    if (after? word (c :: cs)).isSome then some 0 else (firstOccurrence? word cs).map (c.utf8Size + ·)

def nameBytes (cs : List Char) : Nat := (firstByte? (fun c => !isNameChar c) cs).getD (byteLength cs)

theorem firstByte?_mark (mark : Char) (cs : List Char) :
    firstByte? (· == mark) cs = (cutAt? mark cs).map fun parts => byteLength parts.1 := by
  induction cs with
  | nil => rfl
  | cons c cs ih =>
    by_cases hc : c = mark
    · simp [firstByte?, cutAt?, hc, byteLength]
    · simp only [firstByte?, cutAt?, hc, beq_iff_eq, if_false, ih, Option.map_map]
      rfl

theorem upToByte?_of_cutAt? {mark : Char} {cs front back : List Char} (h : cutAt? mark cs = some (front, back)) :
    upToByte? (byteLength front) cs = some front := by
  rw [cutAt?_eq_some h]
  exact upToByte?_byteLength_append _ _

theorem byteLength_sub_of_cutAt? {mark : Char} {cs front back : List Char}
    (h : cutAt? mark cs = some (front, back)) :
    byteLength cs - byteLength back = byteLength front + mark.utf8Size := by
  rw [cutAt?_eq_some h, byteLength_append, byteLength]
  omega

theorem byteLength_sub_of_suffix {cs rest : List Char} {c : Char} (h : c :: rest <:+ cs) :
    byteLength cs - byteLength rest = byteLength cs - byteLength (c :: rest) + c.utf8Size := by
  have hle := byteLength_le_of_suffix h
  rw [byteLength] at hle ⊢
  omega

theorem not_infix_of_firstOccurrence? {word cs : List Char} (hword : word ≠ [])
    (h : firstOccurrence? word cs = none) : ¬ word <:+: cs := by
  induction cs with
  | nil => simpa using hword
  | cons c cs ih =>
    unfold firstOccurrence? at h
    split at h
    · cases h
    · rename_i hnone
      rw [List.infix_cons_iff]
      rintro (⟨behind, hbehind⟩ | hlater)
      · rw [← hbehind, after?_append] at hnone
        exact hnone rfl
      · exact ih (Option.map_eq_none_iff.mp h) hlater

theorem nameBytes_eq (cs : List Char) : nameBytes cs = byteLength (cs.takeWhile isNameChar) := by
  unfold nameBytes
  induction cs with
  | nil => rfl
  | cons c cs ih =>
    cases hc : isNameChar c with
    | false => simp [firstByte?, hc, byteLength]
    | true => simp [firstByte?, hc, byteLength, ← ih, Option.getD_map]

theorem fromByte?_nameBytes (cs : List Char) : fromByte? (nameBytes cs) cs = some (cs.dropWhile isNameChar) := by
  have hcut := fromByte?_byteLength_append (cs.takeWhile isNameChar) (cs.dropWhile isNameChar)
  rwa [List.takeWhile_append_dropWhile, ← nameBytes_eq] at hcut

theorem upToByte?_nameBytes (cs : List Char) : upToByte? (nameBytes cs) cs = some (cs.takeWhile isNameChar) := by
  have hcut := upToByte?_byteLength_append (cs.takeWhile isNameChar) (cs.dropWhile isNameChar)
  rwa [List.takeWhile_append_dropWhile, ← nameBytes_eq] at hcut

theorem nameBytes_eq_zero {cs : List Char} : nameBytes cs = 0 ↔ (cs.takeWhile isNameChar).isEmpty = true := by
  rw [nameBytes_eq, List.isEmpty_iff]
  constructor
  · intro h
    by_contra hne
    exact absurd (byteLength_pos hne) (by omega)
  · intro h
    rw [h]
    rfl

end Text

/-! ## Segments by offsets -/

namespace Place

def skipBlanksAt (text : List Char) (offset : Nat) : Option Nat := do
  let rest ← fromByte? offset text
  return offset + (byteLength rest - byteLength (trimStart rest))

def skipCommaAt (text : List Char) (offset : Nat) : Option Nat := do
  let rest ← fromByte? offset text
  return if rest.head? = some ',' then offset + 1 else offset

/-- The rest is what stands in the text from the offset on. -/
def Stands (text : List Char) (p : Place) : Prop := fromByte? p.offset text = some p.rest

variable {text : List Char} {p q : Place}

theorem stands_start (text : List Char) : Stands text ⟨0, text⟩ := fromByte?_zero text

theorem Stands.reaches (h : p.Stands text) (hq : p.Reaches q) : q.Stands text := by
  obtain ⟨bytes, hbytes, hoffset⟩ := hq
  rw [Stands, hoffset]
  exact fromByte?_add h hbytes

theorem Stands.suffix (h : p.Stands text) : p.rest <:+ text := by
  obtain ⟨front, hfront, -⟩ := fromByte?_eq_some.mp h
  exact ⟨front, hfront.symm⟩

theorem Stands.offset_le (h : p.Stands text) : p.offset ≤ byteLength text := by
  have hsum := offset_add_byteLength h
  omega

theorem Reaches.offset_lt (hq : p.Reaches q) (hlength : q.rest.length < p.rest.length) :
    p.offset < q.offset := by
  obtain ⟨bytes, hbytes, hoffset⟩ := hq
  obtain ⟨front, hrest, rfl⟩ := fromByte?_eq_some.mp hbytes
  have hne : front ≠ [] := by
    rintro rfl
    rw [hrest] at hlength
    exact absurd hlength (by simp)
  have hpos := byteLength_pos hne
  omega

theorem skipBlanksAt_eq (h : p.Stands text) : skipBlanksAt text p.offset = some p.skipBlanks.offset := by
  simp only [skipBlanksAt, show fromByte? p.offset text = some p.rest from h]
  rfl

theorem skipCommaAt_eq (h : p.Stands text) : skipCommaAt text p.offset = some p.skipComma.offset := by
  simp only [skipCommaAt, show fromByte? p.offset text = some p.rest from h, skipComma]
  rcases hrest : p.rest with _ | ⟨c, rest⟩
  · rfl
  · by_cases hc : c = ','
    · subst hc
      simp [after?, moveTo, hrest, byteLength]
      decide
    · have hnone : after? [','] (c :: rest) = none := by simp [after?, Ne.symm hc]
      simp [hnone, hc]

end Place

namespace Segment

/-- A name, a single equals sign and a value: the name, and the offset of the value. -/
def namedAt (text : List Char) (offset : Nat) : Option (Option (List Char × Nat)) := do
  let rest ← fromByte? offset text
  if nameBytes rest = 0 then return none
  else
    let behind ← fromByte? (nameBytes rest) rest
    match after? ['='] (trimStart behind) with
    | none => return none
    | some tail =>
      let value := trimStart tail
      if tail.head? == some '=' || value.isEmpty then return none
      else
        let name ← upToByte? (nameBytes rest) rest
        return some (name, offset + (byteLength rest - byteLength value))

def plainValueAt (text : List Char) (offset : Nat) : Option (List Char × Nat) := do
  let rest ← fromByte? offset text
  match firstByte? (· == ',') rest with
  | some bytes => return (trim (← upToByte? bytes rest), offset + (bytes + 1))
  | none => return (trim rest, offset + byteLength rest)

def resourceAt (text : List Char) (offset : Nat) : Option (Option (List Char × Nat)) := do
  let rest ← fromByte? offset text
  match (after? ['\x7b'] rest).bind fun inner => after? "StaticResource".toList (trimStart inner) with
  | none => return none
  | some inner =>
    if !inner.head?.any isBlank then return none
    else
      let inner := trimStart inner
      let close := trimStart (← fromByte? (nameBytes inner) inner)
      if nameBytes inner = 0 || close.head? != some '\x7d' then return none
      else
        let name ← upToByte? (nameBytes inner) inner
        return some (name, offset + (byteLength rest - byteLength close + 1))

/-- The offset of the first comma that is neither behind a backslash nor in braces. -/
def formatBytes (depth : Nat) (escaped : Bool) : List Char → Nat
  | [] => 0
  | c :: cs =>
    if escaped then c.utf8Size + formatBytes depth false cs
    else if c = ',' && depth = 0 then 0
    else
      let depth := if c = '\x7b' then depth + 1 else if c = '\x7d' then depth - 1 else depth
      c.utf8Size + formatBytes depth (c == '\\') cs

def bareFormatAt (text : List Char) (offset : Nat) : Option (Except Fault (List Char × Nat)) := do
  let rest ← fromByte? offset text
  match after? ['\''] rest with
  | some quoted =>
    match firstByte? (· == '\'') quoted with
    | none => return .error (.spanning .unclosedFormat offset 1)
    | some bytes =>
      let value ← upToByte? bytes quoted
      let next ← Place.skipCommaAt text (← Place.skipBlanksAt text (offset + (bytes + 2)))
      return .ok (value, next)
  | none =>
    let value ← upToByte? (formatBytes 0 false rest) rest
    return .ok (trimEnd value, offset + min (formatBytes 0 false rest + 1) (byteLength rest))

def formatValueAt (text : List Char) (offset : Nat) : Option (Except Fault (List Char × Nat)) := do
  let rest ← fromByte? offset text
  match after? ['\x7b', '\x7d'] rest with
  | some _ => bareFormatAt text (offset + 2)
  | none => bareFormatAt text offset

def bareFormat (p : Place) : Except Fault (List Char × Place) :=
  match after? ['\''] p.rest with
  | some quoted =>
    match cutAt? '\'' quoted with
    | some (value, rest) => .ok (value, (p.moveTo rest).skipBlanks.skipComma)
    | none => .error (p.fault .unclosedFormat 1)
  | none =>
    let (value, rest) := cutFormat 0 false p.rest
    .ok (trimEnd value, p.moveTo rest)

theorem formatValue_eq (p : Place) :
    formatValue p =
      match after? ['\x7b', '\x7d'] p.rest with
      | some inner => bareFormat (p.moveTo inner)
      | none => bareFormat p := by
  unfold formatValue
  cases after? ['\x7b', '\x7d'] p.rest <;> rfl

variable {text : List Char} {p : Place} (h : p.Stands text)
include h

theorem namedAt_eq :
    namedAt text p.offset = some ((named? p.rest).map fun (name, value) => (name, (p.moveTo value).offset)) := by
  simp only [namedAt, show fromByte? p.offset text = some p.rest from h, Option.bind_eq_bind, Option.bind_some,
    fromByte?_nameBytes, upToByte?_nameBytes, named?]
  by_cases hname : nameBytes p.rest = 0
  · simp only [hname, nameBytes_eq_zero.mp hname]
    cases after? ['='] (trimStart (p.rest.dropWhile isNameChar)) <;> rfl
  · have hne : (p.rest.takeWhile isNameChar).isEmpty = false := by
      simpa using mt nameBytes_eq_zero.mpr hname
    simp only [hname, hne, Bool.false_or, if_false]
    cases after? ['='] (trimStart (p.rest.dropWhile isNameChar)) with
    | none => rfl
    | some tail =>
      dsimp only
      split <;> rfl

theorem plainValueAt_eq :
    plainValueAt text p.offset = some ((plainValue p).1, (plainValue p).2.offset) := by
  simp only [plainValueAt, show fromByte? p.offset text = some p.rest from h, Option.bind_eq_bind,
    Option.bind_some, firstByte?_mark, plainValue]
  cases hcut : cutAt? ',' p.rest with
  | none => rfl
  | some parts =>
    obtain ⟨front, back⟩ := parts
    simp only [Option.map_some, upToByte?_of_cutAt? hcut, Option.bind_some, Place.moveTo,
      byteLength_sub_of_cutAt? hcut]
    rfl

theorem resourceAt_eq :
    resourceAt text p.offset =
      some ((resource? p.rest).map fun (name, rest) => (name, (p.moveTo rest).offset)) := by
  simp only [resourceAt, show fromByte? p.offset text = some p.rest from h, Option.bind_eq_bind,
    Option.bind_some, fromByte?_nameBytes, upToByte?_nameBytes, resource?]
  generalize "StaticResource".toList = word
  cases hbrace : after? ['\x7b'] p.rest with
  | none => rfl
  | some behind =>
    cases hword : after? word (trimStart behind) with
    | none => simp only [Option.bind_some, hword]; rfl
    | some inner =>
      simp only [Option.bind_some, hword]
      generalize hclose : trimStart ((trimStart inner).dropWhile isNameChar) = close
      have hsuffix : close <:+ p.rest := by
        have hinner : inner <:+ p.rest :=
          ((after?_suffix hword).trans (trimStart_suffix _)).trans (after?_suffix hbrace)
        rw [← hclose]
        exact (((trimStart_suffix _).trans (List.dropWhile_suffix _)).trans (trimStart_suffix _)).trans hinner
      rcases close with _ | ⟨c, rest⟩
      · cases inner.head?.any isBlank <;> simp [after?]
      · by_cases hc : c = '\x7d'
        · subst hc
          have hbytes := byteLength_sub_of_suffix hsuffix
          rw [show '\x7d'.utf8Size = 1 from rfl] at hbytes
          have hsome : after? ['\x7d'] ('\x7d' :: rest) = some rest := by simp [after?]
          simp only [← hbytes, hsome, nameBytes_eq_zero, List.head?_cons, Option.bind_some]
          cases inner.head?.any isBlank with
          | false => rfl
          | true => cases ((trimStart inner).takeWhile isNameChar).isEmpty <;> rfl
        · have hnone : after? ['\x7d'] (c :: rest) = none := by simp [after?, Ne.symm hc]
          have hhead : ((c :: rest).head? != some '\x7d') = true := by simpa using hc
          simp only [hnone, hhead, Bool.or_true, if_true]
          cases inner.head?.any isBlank <;> rfl

omit h in
theorem formatBytes_eq (depth : Nat) (escaped : Bool) (cs : List Char) :
    formatBytes depth escaped cs = byteLength (cutFormat depth escaped cs).1 := by
  induction cs generalizing depth escaped with
  | nil => rfl
  | cons c cs ih =>
    unfold formatBytes cutFormat
    split
    · rw [ih]
      rfl
    · split
      · rfl
      · simp only [ih]
        rfl

omit h in
theorem eq_cutFormat (depth : Nat) (escaped : Bool) (cs : List Char) :
    cs = (cutFormat depth escaped cs).1 ++ ',' :: (cutFormat depth escaped cs).2 ∨
      cutFormat depth escaped cs = (cs, []) := by
  induction cs generalizing depth escaped with
  | nil => exact .inr rfl
  | cons c cs ih =>
    unfold cutFormat
    split
    · exact (ih depth false).imp (congrArg (c :: ·)) fun hall => by rw [hall]
    · split
      · rename_i hcomma
        simp only [Bool.and_eq_true, decide_eq_true_eq] at hcomma
        exact .inl (by rw [hcomma.1]; rfl)
      · exact (ih _ _).imp (congrArg (c :: ·)) fun hall => by simp only [hall]

theorem bareFormatAt_eq :
    bareFormatAt text p.offset = some ((bareFormat p).map fun (value, next) => (value, next.offset)) := by
  simp only [bareFormatAt, show fromByte? p.offset text = some p.rest from h, Option.bind_eq_bind,
    Option.bind_some, bareFormat]
  cases hquote : after? ['\''] p.rest with
  | none =>
    have hvalue : upToByte? (formatBytes 0 false p.rest) p.rest = some (cutFormat 0 false p.rest).1 ∧
        min (formatBytes 0 false p.rest + 1) (byteLength p.rest) =
          byteLength p.rest - byteLength (cutFormat 0 false p.rest).2 := by
      rw [formatBytes_eq]
      rcases eq_cutFormat 0 false p.rest with hcut | hcut
      · generalize cutFormat 0 false p.rest = parts at hcut ⊢
        rw [hcut]
        refine ⟨upToByte?_byteLength_append _ _, ?_⟩
        simp only [byteLength_append, byteLength, show ','.utf8Size = 1 from rfl]
        omega
      · have hall := upToByte?_byteLength_append p.rest []
        rw [List.append_nil] at hall
        simp only [hcut, hall, byteLength, true_and]
        omega
    simp only [hvalue, Option.bind_some]
    rfl
  | some quoted =>
    simp only [firstByte?_mark]
    cases hcut : cutAt? '\'' quoted with
    | none => rfl
    | some parts =>
      obtain ⟨value, rest⟩ := parts
      have hbehind : (p.moveTo rest).Stands text :=
        h.reaches (Place.reaches_moveTo ((cutAt?_suffix hcut).trans (after?_suffix hquote)))
      have hoffset : (p.moveTo rest).offset = p.offset + (byteLength value + 2) := by
        rw [Place.moveTo, after?_eq_some hquote, cutAt?_eq_some hcut]
        simp only [byteLength_append, byteLength, show '\''.utf8Size = 1 from rfl]
        omega
      simp only [Option.map_some, upToByte?_of_cutAt? hcut, Option.bind_some, ← hoffset,
        Place.skipBlanksAt_eq hbehind, Place.skipCommaAt_eq (hbehind.reaches (Place.reaches_skipBlanks _))]
      rfl

theorem formatValueAt_eq :
    formatValueAt text p.offset =
      some ((formatValue p).map fun (value, next) => (value, next.offset)) := by
  simp only [formatValueAt, show fromByte? p.offset text = some p.rest from h, Option.bind_eq_bind,
    Option.bind_some, formatValue_eq]
  cases hbraces : after? ['\x7b', '\x7d'] p.rest with
  | none => exact bareFormatAt_eq h
  | some inner =>
    have hoffset : (p.moveTo inner).offset = p.offset + 2 := by
      rw [Place.moveTo, after?_eq_some hbraces, byteLength_append]
      exact congrArg (p.offset + ·) (Nat.add_sub_cancel ..)
    have hinner := h.reaches (Place.reaches_moveTo (after?_suffix hbraces))
    rw [← hoffset]
    exact bareFormatAt_eq hinner

end Segment

/-! ## The search for the data type -/

namespace Segment

/-- The text behind a single equals sign, if only blanks stand in front of the sign. -/
def equated? (cs : List Char) : Option (List Char) := do
  let tail ← after? ['='] (trimStart cs)
  if tail.head? = some '=' then none else some tail

/-- The search for the last mention from an offset on, by the offsets of all occurrences of `DataType`: what
was found before it, and what is found in the end. -/
inductive Searches (text : List Char) : Nat → Option (List Char) → Option (List Char) → Prop where
  | done {offset : Nat} {rest : List Char} {found : Option (List Char)} (hrest : fromByte? offset text = some rest)
    (hnone : firstOccurrence? "DataType".toList rest = none) : Searches text offset found found
  | step {offset bytes : Nat} {rest behind : List Char} {found last : Option (List Char)}
    (hrest : fromByte? offset text = some rest) (hbytes : firstOccurrence? "DataType".toList rest = some bytes)
    (hbehind : fromByte? (offset + (bytes + 8)) text = some behind)
    (hmore : Searches text (offset + (bytes + 8)) (equated? behind <|> found) last) :
    Searches text offset found last

theorem mention?_eq_none {cs : List Char} (h : after? "DataType".toList cs = none) : mention? cs = none := by
  simp only [mention?, h]
  rfl

/-- No further mention begins inside of one. -/
theorem lastDataType?_word (behind : List Char) :
    lastDataType? ("DataType".toList ++ behind) = (lastDataType? behind <|> equated? behind) := by
  have hfirst : mention? ("DataType".toList ++ behind) = equated? behind := by
    simp only [mention?, after?_append]
    rfl
  -- the word has no second `D`
  have hinside {c : Char} (hc : c ≠ 'D') (cs : List Char) : mention? (c :: cs) = none :=
    mention?_eq_none (if_neg (Ne.symm hc))
  have hword : "DataType".toList = ['D', 'a', 't', 'a', 'T', 'y', 'p', 'e'] := rfl
  rw [← hfirst]
  simp only [hword, List.cons_append, List.nil_append, lastDataType?_cons, ne_eq, hinside, Char.reduceEq,
    not_false_eq_true, Option.orElse_eq_orElse, Option.orElse_eq_or, Option.or_none]

theorem lastDataType?_of_firstOccurrence? {cs : List Char} {bytes : Nat}
    (h : firstOccurrence? "DataType".toList cs = some bytes) :
    ∃ front behind, cs = front ++ ("DataType".toList ++ behind) ∧ byteLength front = bytes ∧
      lastDataType? cs = (lastDataType? behind <|> equated? behind) := by
  induction cs generalizing bytes with
  | nil => cases h
  | cons c cs ih =>
    unfold firstOccurrence? at h
    split at h
    · rename_i hsome
      cases h
      obtain ⟨behind, hbehind⟩ := Option.isSome_iff_exists.mp hsome
      have hcs := after?_eq_some hbehind
      exact ⟨[], behind, hcs, rfl, by rw [hcs, lastDataType?_word]⟩
    · rename_i hnone
      obtain ⟨further, hfurther, rfl⟩ := Option.map_eq_some_iff.mp h
      obtain ⟨front, behind, hcs, hfront, hlast⟩ := ih hfurther
      refine ⟨c :: front, behind, by rw [hcs]; rfl, by rw [byteLength, hfront], ?_⟩
      rw [lastDataType?_cons, mention?_eq_none (Option.not_isSome_iff_eq_none.mp hnone), hlast]
      simp

/-- The search gets to the end, and finds the last mention. -/
theorem searches_lastDataType? {text : List Char} {offset : Nat} {rest : List Char} (found : Option (List Char))
    (hrest : fromByte? offset text = some rest) : Searches text offset found (lastDataType? rest <|> found) := by
  -- on what is left, which gets shorter by the word at least
  induction hlength : rest.length using Nat.strong_induction_on generalizing offset rest found with
  | _ length ih =>
    cases hfirst : firstOccurrence? "DataType".toList rest with
    | none =>
      rw [lastDataType?_eq_none (not_infix_of_firstOccurrence? (by decide) hfirst)]
      exact .done hrest hfirst
    | some bytes =>
      obtain ⟨front, behind, hsplit, hfront, hlast⟩ := lastDataType?_of_firstOccurrence? hfirst
      have hbehind : fromByte? (offset + (bytes + 8)) text = some behind := by
        apply fromByte?_add hrest
        rw [hsplit, ← hfront]
        exact fromByte?_add (fromByte?_byteLength_append front _)
          (fromByte?_byteLength_append "DataType".toList behind)
      have hshorter : behind.length < length := by
        rw [← hlength, hsplit]
        simp
        omega
      rw [hlast, ← orElse_assoc]
      exact .step hrest hfirst hbehind (ih _ hshorter _ hbehind rfl)

end Segment

namespace Argument

variable {s : Setting} {text : List Char} {known : Bool} {p next : Place} {a : Argument}

/-! ## Where reading comes to -/

/-- A place at which reading looks for a further argument, if there is text left. -/
inductive Head (s : Setting) (text : List Char) : Bool → Place → Prop where
  | start : Head s text false ⟨0, text⟩
  | next {known : Bool} {p next : Place} {a : Argument} (hp : Head s text known p) (hne : p.skipBlanks.rest ≠ [])
    (hread : read s known p.skipBlanks = .ok (a, next)) : Head s text (known || a.isPath) next

/-- A place to which some of the moves lead that reading makes. -/
inductive Visited (s : Setting) (text : List Char) : Place → Prop where
  | head {known : Bool} {p : Place} (hp : Head s text known p) : Visited s text p
  | blanks {p : Place} (hp : Visited s text p) : Visited s text p.skipBlanks
  | comma {p : Place} (hp : Visited s text p) : Visited s text p.skipComma
  | value {p : Place} {name value : List Char} (hp : Visited s text p)
    (hnamed : Segment.named? p.rest = some (name, value)) : Visited s text (p.moveTo value)
  | expression {p next : Place} {role : Role} {a : Argument} (hp : Visited s text p)
    (hread : readExpr s role p = .ok (a, next)) : Visited s text next
  | plain {p : Place} (hp : Visited s text p) : Visited s text (Segment.plainValue p).2
  | format {p next : Place} {value : List Char} (hp : Visited s text p)
    (hformat : Segment.formatValue p = .ok (value, next)) : Visited s text next

theorem Head.stands (h : Head s text known p) : p.Stands text := by
  induction h with
  | start => exact Place.stands_start text
  | next _ hne hread ih => exact ih.reaches ((Place.reaches_skipBlanks _).trans (read_reaches hne hread).1)

theorem Head.offset_lt (hne : p.skipBlanks.rest ≠ []) (hread : read s known p.skipBlanks = .ok (a, next)) :
    p.offset < next.offset := by
  obtain ⟨hreaches, hlength⟩ := read_reaches hne hread
  have hblanks := (Place.reaches_skipBlanks p).suffix.length_le
  exact ((Place.reaches_skipBlanks p).trans hreaches).offset_lt (by omega)

theorem Visited.stands (h : Visited s text p) : p.Stands text := by
  induction h with
  | head hp => exact hp.stands
  | blanks _ ih => exact ih.reaches (Place.reaches_skipBlanks _)
  | comma _ ih => exact ih.reaches (Place.reaches_skipComma _)
  | value _ hnamed ih => exact ih.reaches (Place.reaches_moveTo (Segment.named?_suffix hnamed))
  | expression _ hread ih => exact ih.reaches (readExpr_reaches hread)
  | plain _ ih => exact ih.reaches (Segment.plainValue_reaches _)
  | format _ hformat ih => exact ih.reaches (Segment.formatValue_reaches hformat)

theorem readAll_cases {bound : Nat} (hp : Head s text known p) (hbound : p.rest.length ≤ bound) :
    (∃ found, Scan s known p found ∧ readAll s bound known p = .ok (found.map (·.2))) ∨
      ∃ known' q fault, Head s text known' q ∧ q.skipBlanks.rest ≠ [] ∧
        read s known' q.skipBlanks = .error fault ∧ readAll s bound known p = .error fault := by
  cases hall : readAll s bound known p with
  | ok as =>
    obtain ⟨found, hscan, rfl⟩ := exists_scan hbound hall
    exact .inl ⟨found, hscan, rfl⟩
  | error fault =>
    right
    induction bound generalizing known p with
    | zero => cases hall
    | succ bound ih =>
      unfold readAll at hall
      dsimp only at hall
      split at hall
      · cases hall
      · rename_i hempty
        have hne : p.skipBlanks.rest ≠ [] := by simpa using hempty
        cases hread : read s known p.skipBlanks with
        | error raised =>
          rw [hread] at hall
          cases hall
          exact ⟨known, p, fault, hp, hne, hread, rfl⟩
        | ok result =>
          obtain ⟨a, next⟩ := result
          simp only [hread, bind, Except.bind] at hall
          cases hrest : readAll s bound (known || a.isPath) next with
          | ok as => rw [hrest] at hall; cases hall
          | error raised =>
            rw [hrest] at hall
            cases hall
            have hlt := (read_reaches hne hread).2
            have hle := (Place.reaches_skipBlanks p).suffix.length_le
            exact ih (hp.next hne hread) (by omega) hrest

/-- Reading a declaration stays between the characters of its text and gets to its end. -/
structure StaysInside (s : Setting) (text : List Char) : Prop where
  /-- A place at which a further argument is looked for is between two characters. -/
  head : ∀ known p, Head s text known p → p.Stands text ∧ p.offset ≤ byteLength text
  advances : ∀ known p a next, Head s text known p → p.skipBlanks.rest ≠ [] →
    read s known p.skipBlanks = .ok (a, next) → p.offset < next.offset
  /-- So is every place between the head of an argument and the next. -/
  visited : ∀ p, Visited s text p → p.Stands text
  blanks : ∀ p, Visited s text p → Place.skipBlanksAt text p.offset = some p.skipBlanks.offset
  comma : ∀ p, Visited s text p → Place.skipCommaAt text p.offset = some p.skipComma.offset
  named : ∀ p, Visited s text p →
    Segment.namedAt text p.offset =
      some ((Segment.named? p.rest).map fun (name, value) => (name, (p.moveTo value).offset))
  plain : ∀ p, Visited s text p →
    Segment.plainValueAt text p.offset = some ((Segment.plainValue p).1, (Segment.plainValue p).2.offset)
  format : ∀ p, Visited s text p →
    Segment.formatValueAt text p.offset =
      some ((Segment.formatValue p).map fun (value, next) => (value, next.offset))
  resource : ∀ p, Visited s text p →
    Segment.resourceAt text p.offset =
      some ((Segment.resource? p.rest).map fun (name, rest) => (name, (p.moveTo rest).offset))
  /-- An expression ends behind where it begins and no further than the text. -/
  expression : ∀ p parsed, Visited s text p → Grammar.parseBytes s.grammar p.rest false = .ok parsed →
    0 < parsed.stop ∧ parsed.stop ≤ byteLength p.rest ∧
      fromByte? (p.offset + parsed.stop) text = some (dropBytes parsed.stop p.rest)
  dataType : Segment.Searches text 0 none (Segment.lastDataType? text) ∧
    ∀ tail, Segment.lastDataType? text = some tail →
      ∃ next, Segment.plainValueAt tail 0 = some ((Segment.plainValue ⟨0, tail⟩).1, next)
  ends : (∃ found, Scan s false ⟨0, text⟩ found ∧ ofText s text = .ok (found.map (·.2))) ∨
    ∃ known p fault, Head s text known p ∧ p.skipBlanks.rest ≠ [] ∧
      read s known p.skipBlanks = .error fault ∧ ofText s text = .error fault

/-- Whatever the context and the site are, and whatever the text. -/
theorem ofText_staysInside (s : Setting) (text : List Char) : StaysInside s text where
  head known p hp := ⟨hp.stands, hp.stands.offset_le⟩
  advances known p a next _ hne hread := Head.offset_lt hne hread
  visited p hp := hp.stands
  blanks p hp := Place.skipBlanksAt_eq hp.stands
  comma p hp := Place.skipCommaAt_eq hp.stands
  named p hp := Segment.namedAt_eq hp.stands
  plain p hp := Segment.plainValueAt_eq hp.stands
  format p hp := Segment.formatValueAt_eq hp.stands
  resource p hp := Segment.resourceAt_eq hp.stands
  expression p parsed hp hparsed := by
    obtain ⟨rest, hrest⟩ := Grammar.exists_fromByte?_stop hparsed
    have hsum := offset_add_byteLength hrest
    refine ⟨Grammar.stop_pos_of_parseBytes hparsed, by omega, ?_⟩
    rw [dropBytes_of_fromByte? hrest]
    exact fromByte?_add hp.stands hrest
  dataType := by
    constructor
    · have hsearch := Segment.searches_lastDataType? none (fromByte?_zero text)
      simpa using hsearch
    · exact fun tail _ => ⟨_, Segment.plainValueAt_eq (Place.stands_start tail)⟩
  ends := readAll_cases .start (Nat.le_refl _)

end Argument

end DataBinding
