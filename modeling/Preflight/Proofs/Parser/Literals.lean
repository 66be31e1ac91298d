import Preflight.Proofs.Expr.Relabelling
import Preflight.Proofs.Parser.Groups

/-! # Strings, objects and integers

Escapes are undone character by character, segments are read up to the next hole, keys are strings
without one, and digits give the number that they were written for. -/

namespace Preflight
set_option autoImplicit false

namespace Parser

variable {expr : Parser Expr} {t rest : List Char} {n : Nat}

/-! ## Strings -/

/-- Text that was written with its escapes is scanned as that text. -/
theorem scan_escapeLiteral (text : String) (rest : List Char) :
    LiteralRun.scan (escapeLiteral text ++ rest) =
      { LiteralRun.scan rest with
        text := text.toList ++ (LiteralRun.scan rest).text
        length := (escapeLiteral text).length + (LiteralRun.scan rest).length } := by
  rw [escapeLiteral]
  generalize text.toList = cs
  induction cs with
  | nil => simp
  | cons c cs ih =>
    rw [List.flatMap_cons, List.append_assoc]
    split
    next =>
      rw [List.cons_append, List.singleton_append, LiteralRun.scan, ih]
      simp
      omega
    next plain =>
      simp only [not_or] at plain
      rw [List.singleton_append, LiteralRun.scan, ih]
      · simp
        omega
      · exact plain.2.1
      · exact fun h => absurd h plain.1
      · exact fun _ _ h => absurd h plain.1
      · exact fun _ h => absurd h plain.2.2

theorem scan_last (text : String) (rest : List Char) :
    LiteralRun.scan (escapeLiteral text ++ '\'' :: rest) =
      ⟨text.toList, (escapeLiteral text).length + 1, .quote⟩ := by
  simp [scan_escapeLiteral, LiteralRun.scan]

theorem scan_hole (text : String) (rest : List Char) :
    LiteralRun.scan (escapeLiteral text ++ '$' :: '{' :: rest) =
      ⟨text.toList, (escapeLiteral text).length + 2, .hole⟩ := by
  simp [scan_escapeLiteral, LiteralRun.scan]

theorem interleave_cons_cons (segment : String) (segments : List String) (hole : Expr)
    (holes : List Expr) :
    Expr.interleave (segment :: segments) (Expr.renderAll (hole :: holes)) =
      escapeLiteral segment ++ '$' :: '{' ::
        (parenthesize hole.render ++ '}' :: Expr.interleave segments (Expr.renderAll holes)) := by
  simp [Expr.renderAll, Expr.interleave]

/-- Segments are read in turn, each up to the next hole or the closing quote. -/
theorem reads_segments (start : Nat) {segments : List String} {holes : List Expr}
    (hlength : segments.length = holes.length + 1) (inner : ∀ x ∈ holes, Encloses expr x)
    (hn : segments.length ≤ n) :
    Reads (Parser.segments expr start n)
      (· = Expr.interleave segments (Expr.renderAll holes) ++ '\'' :: rest)
      (fun r => r.1 = segments ∧ r.2.map Expr.erase = holes.map Expr.erase) (· = rest) := by
  induction segments generalizing holes n with
  | nil => cases hlength
  | cons segment segments ih =>
    obtain _ | n := n
    · cases hn
    refine reads_rest.bind_eq ?_
    cases holes with
    | nil =>
      obtain rfl : segments = [] := List.length_eq_zero_iff.mp (Nat.succ.inj hlength)
      have text : Expr.interleave [segment] (Expr.renderAll []) = escapeLiteral segment := by
        simp [Expr.interleave, Expr.renderAll]
      have left : (escapeLiteral segment ++ '\'' :: rest).drop
          ((escapeLiteral segment).length + 1) = rest := by
        simp [List.drop_append]
      rw [text, scan_last]
      refine (reads_skip _).bind fun _ _ => ?_
      rw [left]
      exact .pure ⟨congrArg (· :: []) String.ofList_toList, rfl⟩
    | cons hole holes =>
      have left (text : List Char) : (escapeLiteral segment ++ '$' :: '{' :: text).drop
          ((escapeLiteral segment).length + 2) = text := by
        simp [List.drop_append]
      rw [interleave_cons_cons, List.append_assoc, List.cons_append, List.cons_append,
        List.append_assoc, List.cons_append, scan_hole]
      refine (reads_skip _).bind fun _ _ => ?_
      rw [left]
      refine (inner hole List.mem_cons_self _ (.cons (by decide) _)).at_of_near.bind fun x hx => ?_
      refine (reads_expect "\x7d" rfl).bind fun _ _ => ?_
      refine (ih (Nat.succ.inj hlength) (fun y hy => inner y (List.mem_cons_of_mem _ hy))
        (Nat.le_of_succ_le_succ hn)).bind fun later hlater => .pure ⟨?_, ?_⟩
      · show String.ofList segment.toList :: later.1 = segment :: segments
        rw [String.ofList_toList, hlater.1]
      · show (x :: later.2).map Expr.erase = (hole :: holes).map Expr.erase
        rw [List.map_cons, List.map_cons, hx, hlater.2]

theorem reads_string {segments : List String} {holes : List Expr}
    (hlength : segments.length = holes.length + 1) (inner : ∀ x ∈ holes, Encloses expr x)
    (hn : segments.length ≤ n) :
    Reads (string n expr)
      (· = '\'' :: (Expr.interleave segments (Expr.renderAll holes) ++ '\'' :: rest))
      (fun e => ∃ node holes', e = .string node segments holes' ∧
        holes'.map Expr.erase = holes.map Expr.erase) (· = rest) := by
  refine reads_offset.bind fun start _ => (reads_skip 1).bind fun _ _ => ?_
  refine (reads_segments start hlength inner hn).bind fun r hr => ?_
  exact (reads_node start).bind fun node _ => .pure ⟨node, r.2, by rw [hr.1], hr.2⟩

/-! ## Objects -/

theorem reads_key (hn : 0 < n) (key : String) :
    Reads (Parser.key n expr) (Near (quoteLiteral key ++ rest)) (· = key) (· = rest) := by
  have text : (quoteLiteral key ++ rest).dropWhile isBlank =
      '\'' :: (Expr.interleave [key] (Expr.renderAll []) ++ '\'' :: rest) := by
    simp [quoteLiteral, Expr.interleave, Expr.renderAll, isBlank]
  refine reads_skipBlanks.bind fun _ _ => reads_column.bind fun column _ => ?_
  rw [text]
  refine reads_rest.bind_eq ?_
  have hlength : [key].length = ([] : List Expr).length + 1 := rfl
  refine (reads_string hlength (List.forall_mem_nil _) hn).bind ?_
  rintro _ ⟨node, holes, rfl, hholes⟩
  obtain rfl := List.map_eq_nil_iff.mp hholes
  exact .pure rfl

/-- The first of the properties, up to what comes after its value. -/
theorem reads_property {p : Property Expr} {β : Type} {q : Nat → String → Expr → Parser β}
    {final : β → Prop} {after : List Char → Prop} (hn : 0 < n) (inner : Encloses expr p.value)
    (hrest : EndsExpr rest)
    (hq : ∀ start value, value.erase = p.value.erase →
      Reads (q start p.key value) (Near rest) final after) :
    Reads (do
      skipBlanks
      let start ← offset
      let key ← key n expr
      expect ":"
      let value ← expr
      q start key value) (Near (Expr.renderProperty p ++ rest)) final after := by
  have text : Expr.renderProperty p ++ rest =
      quoteLiteral p.key ++ ':' :: ' ' :: (parenthesize p.value.render ++ rest) := by
    simp [Expr.renderProperty]
  rw [text]
  refine reads_start fun start => ?_
  refine (reads_key hn p.key).from_blanks.bind_eq ?_
  refine (reads_expect ":" rfl).at_of_near.bind fun _ _ => ?_
  exact (inner rest hrest).skip_blank.bind fun value hvalue => hq start value hvalue

theorem reads_properties {p : Property Expr} {ps : List (Property Expr)}
    (inner : ∀ x ∈ p :: ps, Encloses expr x.value) (hn : (p :: ps).length ≤ n) :
    Reads (properties expr n)
      (Near (separate (Expr.renderProperties (p :: ps)) ++ '}' :: rest))
      (fun qs => Expr.settings qs = Expr.settings (p :: ps)) (· = rest) := by
  induction ps generalizing p n with
  | nil =>
    obtain _ | n := n
    · cases hn
    rw [Expr.renderProperties_eq_map, List.map_singleton, separate_singleton]
    refine reads_property n.succ_pos (inner p List.mem_cons_self) (.cons (by decide) rest) ?_
    intro start value hvalue
    refine (reads_spanFrom start).bind fun span _ => ?_
    refine (reads_eat "\x7d" rfl).bind_eq (.pure ?_)
    simp [Expr.settings, hvalue]
  | cons q qs ih =>
    obtain _ | n := n
    · cases hn
    rw [Expr.renderProperties_eq_map, List.map_cons, List.map_cons, separate_cons_cons,
      List.append_assoc]
    refine reads_property n.succ_pos (inner p List.mem_cons_self) (.cons (by decide) _) ?_
    intro start value hvalue
    refine (reads_spanFrom start).bind fun span _ => ?_
    refine (reads_eat_not "\x7d" rfl).bind_eq ?_
    refine (reads_expect "," rfl).bind fun _ _ => ?_
    have later := ih (fun x hx => inner x (List.mem_cons_of_mem _ hx)) (Nat.le_of_succ_le_succ hn)
    rw [Expr.renderProperties_eq_map, List.map_cons] at later
    refine later.skip_blank.bind fun properties hproperties => .pure ?_
    show (p.key, value.erase) :: Expr.settings properties = Expr.settings (p :: q :: qs)
    rw [hvalue, hproperties]
    rfl

/-! ## Integers -/

theorem decimalValue_toDigits (n : Nat) : decimalValue (Nat.toDigits 10 n) = n :=
  Nat.ofDigitChars_toDigits (by decide) (by decide)

theorem takeWhile_toDigits (n : Nat) (hrest : rest.head?.any Char.isDigit = false) :
    (Nat.toDigits 10 n ++ rest).takeWhile Char.isDigit = Nat.toDigits 10 n :=
  takeWhile_append_of_head? (fun _ => isDigit_of_mem_toDigits) hrest

theorem reads_natural {n : Nat} (hn : n < integerBound)
    (hrest : rest.head?.any Char.isDigit = false) :
    Reads integer (· = Nat.toDigits 10 n ++ rest) (fun e => ∃ node, e = .int node n)
      (· = rest) := by
  have unsigned : ((Nat.toDigits 10 n ++ rest).head? == some '-') = false := by
    obtain ⟨c, cs, hcons, hc⟩ := exists_cons_toDigits n
    rw [hcons, List.cons_append, List.head?_cons, beq_eq_false_iff_ne]
    rintro heq
    exact absurd (Option.some.inj heq ▸ hc) (by decide)
  refine reads_offset.bind fun start _ => reads_rest.bind_eq ?_
  simp only [unsigned, Bool.false_eq_true, if_false]
  refine reads_rest.bind_eq ?_
  rw [takeWhile_toDigits n hrest, decimalValue_toDigits]
  refine (reads_skip _).bind fun _ _ => ?_
  rw [List.drop_left, if_pos hn]
  exact (reads_node start).bind fun node _ => .pure ⟨node, rfl⟩

theorem reads_negative {n : Nat} (hn : n ≤ integerBound)
    (hrest : rest.head?.any Char.isDigit = false) :
    Reads integer (· = '-' :: (Nat.toDigits 10 n ++ rest)) (fun e => ∃ node, e = .int node (-n))
      (· = rest) := by
  refine reads_offset.bind fun start _ => reads_rest.bind_eq ?_
  refine (reads_skip 1).bind fun _ _ => reads_rest.bind_eq ?_
  rw [List.drop_succ_cons, List.drop_zero, takeWhile_toDigits n hrest]
  simp only [decimalValue_toDigits, List.head?_cons, beq_self_eq_true, if_true, if_pos hn]
  refine (reads_skip _).bind fun _ _ => ?_
  rw [List.drop_left]
  exact (reads_node start).bind fun node _ => .pure ⟨node, rfl⟩

theorem reads_integer {value : Int} (low : -integerBound ≤ value) (high : value < integerBound)
    (hrest : rest.head?.any Char.isDigit = false) :
    Reads integer (· = (toString value).toList ++ rest) (fun e => ∃ node, e = .int node value)
      (· = rest) := by
  cases value with
  | ofNat n =>
    rw [Int.ofNat_eq_natCast, toList_toString_ofNat]
    exact reads_natural (Int.ofNat_lt.mp high) hrest
  | negSucc n =>
    rw [toList_toString_negSucc, Int.negSucc_eq]
    exact reads_negative (by omega) hrest

end Parser

end Preflight
