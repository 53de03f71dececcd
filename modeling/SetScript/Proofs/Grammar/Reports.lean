import Mathlib.Data.List.Perm.Basic
import SetScript.Proofs.Grammar.Program
/-!
# Errors that do not stop the parser

Where the grammar is kept, but for what stands left of `=` and for the length of lists, every statement is read and
each of these two kinds of mistakes is reported once, however they stand inside each other (`parse_reports_each`). The
parser finds them on its way; here they are looked up in the finished derivation, one part after the other.
-/

namespace SetScript.Grammar

/-- The items of a list. -/
abbrev Symbol.Entry : Symbol → Type
  | items i | moreItems i _ => Derivation (.item i)
  | _ => Empty

/-- A derivation of some symbol. -/
abbrev AnyDerivation := (s : Symbol) × Derivation s

namespace Derivation

/-- The items of a list, in order. -/
@[simp] def entries : {s : Symbol} → Derivation s → List s.Entry
  | _, items first rest => first :: rest.entries
  | _, item _ next rest => next :: rest.entries
  | _, _ => []

/-- All derivations in a derivation, with itself in front. -/
@[simp] def parts {s : Symbol} (d : Derivation s) : List AnyDerivation :=
  ⟨s, d⟩ :: match d with
    | function _ name _ parameters _ _ body _ => name.parts ++ parameters.parts ++ body.parts
    | binding _ name _ value _ => name.parts ++ value.parts
    | printing _ value _ => value.parts
    | statement value _ => value.parts
    | assign target _ value => target.parts ++ value.parts
    | plain e => e.parts
    | chain first rest => first.parts ++ rest.parts
    | operand _ _ _ _ right rest => right.parts ++ rest.parts
    | prefixed _ _ _ e => e.parts
    | bare e => e.parts
    | call callee rest => callee.parts ++ rest.parts
    | apply _ arguments _ rest => arguments.parts ++ rest.parts
    | items first rest => first.parts ++ rest.parts
    | item _ next rest => next.parts ++ rest.parts
    | group _ e _ => e.parts
    | cardinality _ e _ => e.parts
    | roster _ first rest _ => first.parts ++ rest.parts
    | comprehension _ result _ bound _ domain filter _ => result.parts ++ bound.parts ++ domain.parts ++ filter.parts
    | element _ e rest => e.parts ++ rest.parts
    | filtered _ e => e.parts
    | named _ | noOperand | noCall | noItems | lastItem | literal _ _ _ _ | reference _ | emptyRoster _ _
    | lastElement | noFilter => []

/-- What is wrong with a derivation itself: an assignment to something else than a single identifier, at its `=`, and a
list of more than 255 items, at the first token of item 256. -/
def mistake? : AnyDerivation → Option SyntaxError
  | ⟨_, assign target sign _⟩ =>
    if target.tokens.map (·.kind) = [.identifier] then none else some ⟨.invalidAssignmentTarget, sign.1.line⟩
  | ⟨.items _, list⟩ => list.entries[255]?.map fun entry => ⟨.tooManyArguments 255, entry.line⟩
  | _ => none

/-- What is wrong in a derivation, in any of its parts. -/
def mistakes {s : Symbol} (d : Derivation s) : List SyntaxError := d.parts.filterMap mistake?

variable {s : Symbol} {e : SyntaxError}

theorem mistakes_eq {d : Derivation s} {inside : List AnyDerivation} (parts : d.parts = ⟨s, d⟩ :: inside) :
    d.mistakes = (mistake? ⟨s, d⟩).toList ++ inside.filterMap mistake? := by
  rw [mistakes, parts, List.filterMap_cons]
  cases mistake? ⟨s, d⟩ <;> rfl

theorem mistakes_eq_inside {d : Derivation s} {inside : List AnyDerivation} (parts : d.parts = ⟨s, d⟩ :: inside)
    (own : mistake? ⟨s, d⟩ = none) : d.mistakes = inside.filterMap mistake? := by
  rw [mistakes_eq parts, own]
  rfl

theorem filterMap_parts (d : Derivation s) : d.parts.filterMap mistake? = d.mistakes := rfl

theorem mistakes_name (name : Derivation .name) : name.mistakes = [] := by
  cases name
  rfl

/-! ## Assignments -/

section Assignments

variable {target : Derivation (.phrase (.layer .equality))} {sign : TokenOf .equal} {value : Derivation .expression}

/-- An assignment to something else is read as its left side. -/
theorem tree_assign_of_ne (h : target.tokens.map (·.kind) ≠ [.identifier]) :
    (assign target sign value).tree = target.tree := by
  rw [tree]
  split
  · next name hn => exact absurd (target.onlyNames name hn) h
  · rfl

theorem tree_assign_of_identifier {token : Token} (ht : target.tokens = [token]) (hk : token.kind = .identifier) :
    (assign target sign value).tree = Expr.assign token value.tree := by
  obtain rfl : target = ofName ⟨token, hk⟩ := tokens_injective ht
  rfl

theorem reports_assign : (assign target sign value).reports =
    target.reports ++ value.reports ++ (mistake? ⟨_, assign target sign value⟩).toList := by
  rw [reports, mistake?]
  congr 1
  split
  · next name hn => rw [if_pos (target.onlyNames name hn)]; rfl
  · next other =>
    rw [if_neg]
    · rfl
    · intro single
      obtain ⟨name, rfl⟩ := eq_ofName single
      exact other _ rfl

end Assignments

/-! ## Lists -/

/-- What a list that is read up to here turns out to be: over-long, if the rest of it has item 256. -/
def pending : {s : Symbol} → Derivation s → Option SyntaxError
  | .moreItems _ before, rest =>
    if before ≤ 255 then rest.entries[255 - before]?.map fun entry => ⟨.tooManyArguments 255, entry.line⟩ else none
  | _, _ => none

theorem pending_item {item : Item} {before : Nat} (comma : TokenOf .comma) (next : Derivation (.item item))
    (rest : Derivation (.moreItems item (before + 1))) :
    (Derivation.item comma next rest).pending.toList =
      (if before = 255 then [⟨.tooManyArguments 255, next.line⟩] else []) ++ rest.pending.toList := by
  simp only [pending]
  rcases Nat.lt_trichotomy before 255 with h | rfl | h
  · have step : 255 - before = 255 - (before + 1) + 1 := by omega
    rw [if_pos h.le, if_pos (Nat.succ_le_of_lt h), if_neg h.ne, entries, step, List.getElem?_cons_succ, List.nil_append]
  · simp
  · rw [if_neg h.not_ge, if_neg h.ne', if_neg (Nat.lt_succ_of_lt h).not_ge]
    rfl

theorem mistake?_items {item : Item} (first : Derivation (.item item)) (rest : Derivation (.moreItems item 1)) :
    mistake? ⟨_, items first rest⟩ = rest.pending := by
  simp [mistake?, pending]

/-- A list is read as the trees of its items. -/
def Complete : {s : Symbol} → Derivation s → Prop
  | .items _, list | .moreItems _ _, list => list.tree = list.entries.map tree
  | _, _ => True

theorem complete (d : Derivation s) : d.Complete := by
  induction d with
  | items first rest _ ih | item _ first rest _ ih => exact congrArg (first.tree :: ·) ih
  | noItems | lastItem => rfl
  | _ => trivial

/-! ## Every mistake is reported once -/

theorem count_reports (d : Derivation s) (e : SyntaxError) :
    d.reports.count e = d.pending.toList.count e + d.mistakes.count e := by
  induction d with
  | named | noOperand | noCall | noItems | literal | reference | emptyRoster | lastElement | noFilter => rfl
  | printing _ e _ ih | statement e _ ih | plain e ih | prefixed _ _ _ e ih | bare e ih | group _ e _ ih
  | cardinality _ e _ ih | filtered _ e ih => exact ih
  | chain first rest ihf ihr | operand _ _ _ _ first rest ihf ihr | call first rest ihf ihr
  | apply _ first _ rest ihf ihr | roster _ first rest _ ihf ihr | element _ first rest ihf ihr =>
    rw [mistakes_eq_inside rfl rfl]
    simp [filterMap_parts, pending, ihf, ihr]
  | function _ name _ parameters _ _ body _ _ ihp ihb =>
    rw [mistakes_eq_inside rfl rfl]
    simp [filterMap_parts, pending, mistakes_name, ihp, ihb]
  | binding _ name _ value _ _ ihv =>
    rw [mistakes_eq_inside rfl rfl]
    simp [filterMap_parts, pending, mistakes_name, ihv]
  | comprehension _ result _ bound _ domain filter _ ihr _ ihd ihf =>
    rw [mistakes_eq_inside rfl rfl]
    simp [filterMap_parts, pending, mistakes_name, ihr, ihd, ihf]
  | assign target sign value iht ihv =>
    rw [mistakes_eq rfl, reports_assign]
    simp [filterMap_parts, pending, iht, ihv]
    omega
  -- A list is known to be over-long when item 256 is there, and counts as one mistake at its beginning.
  | items first rest ihf ihr =>
    rw [mistakes_eq rfl, mistake?_items]
    simp [filterMap_parts, pending, ihf, ihr]
    omega
  | lastItem =>
    simp [pending]
    rfl
  | item comma next rest ihn ihr =>
    have inner : next.pending = none := rfl
    rw [mistakes_eq_inside rfl rfl, pending_item]
    simp [filterMap_parts, inner, ihn, ihr]
    omega

theorem reports_perm_mistakes (d : Derivation .declaration) : d.reports.Perm d.mistakes := by
  rw [List.perm_iff_count]
  intro e
  rw [count_reports]
  exact Nat.zero_add _

theorem cause_of_mem_mistakes {d : Derivation s} (h : e ∈ d.mistakes) :
    e.cause = .invalidAssignmentTarget ∨ e.cause = .tooManyArguments 255 := by
  obtain ⟨part, -, hp⟩ := List.mem_filterMap.mp h
  unfold mistake? at hp
  split at hp
  · split at hp <;> cases hp
    exact .inl rfl
  · obtain ⟨entry, -, rfl⟩ := Option.map_eq_some_iff.mp hp
    exact .inr rfl
  · cases hp

end Derivation

/-- Where every statement keeps the grammar, with anything left of `=` and with lists of any length, the parser gives a
statement for each declaration. It reports each mistake once, and nothing else. An assignment to something else is read
as its left side, and a list with all of its items. -/
theorem parse_reports_each (tokens : List Token) (h : ∀ token ∈ tokens, token.kind ≠ .eof)
    (ds : List (Derivation .declaration)) (hd : ∀ d ∈ ds, d.depth ≤ 100) (ht : ds.flatMap Derivation.tokens = tokens) :
    (parse tokens).statements = ds.map Derivation.tree ∧
      (parse tokens).errors.Perm (ds.flatMap Derivation.mistakes) ∧
      (∀ e ∈ (parse tokens).errors, e.cause = .invalidAssignmentTarget ∨ e.cause = .tooManyArguments 255) ∧
      (∀ (target : Derivation (.phrase (.layer .equality))) (sign : TokenOf .equal) (value : Derivation .expression),
        (target.tokens.map (·.kind) ≠ [.identifier] → (Derivation.assign target sign value).tree = target.tree) ∧
        ∀ token, target.tokens = [token] → token.kind = .identifier →
          (Derivation.assign target sign value).tree = Expr.assign token value.tree) ∧
      ∀ (item : Item) (list : Derivation (.items item)), list.tree = list.entries.map Derivation.tree := by
  rw [parse_eq_declarations h, ← ht, declarations_flatMap hd]
  have reported : (ds.flatMap Derivation.reports).Perm (ds.flatMap Derivation.mistakes) :=
    List.Perm.flatMap_left ds fun d _ => d.reports_perm_mistakes
  refine ⟨rfl, reported, fun e he => ?_, fun target sign value => ?_, fun item list => list.complete⟩
  · obtain ⟨d, -, hm⟩ := List.mem_flatMap.mp (reported.mem_iff.mp he)
    exact Derivation.cause_of_mem_mistakes hm
  · exact ⟨Derivation.tree_assign_of_ne, fun _ => Derivation.tree_assign_of_identifier⟩

/-! ### An example: `true = f(true, …, true, true = x);` with 256 arguments -/

/-- The operand of `==` that a call is. -/
def layersOf (d : Derivation (.phrase .call)) : Derivation (.phrase (.layer .equality)) :=
  .single (l := .equality) (.single (l := .comparison) (.single (l := .membership) (.single (l := .union)
    (.single (l := .intersection) (.single (l := .term) (.single (l := .factor) (.bare d)))))))

def truth (line : Nat) : Derivation (.phrase (.layer .equality)) :=
  layersOf (.call (.literal ⟨.trueWord, "true", some (.bool true), line⟩ (.bool true) rfl rfl) .noCall)

/-- An assignment to `true`, with `=` on the next line. -/
def toTruth (line : Nat) (value : Derivation .expression) : Derivation .expression :=
  .assign (truth line) ⟨⟨.equal, "=", none, line + 1⟩, rfl⟩ value

/-- The arguments behind the first: `true` again and again, and then the last. -/
def truthsAnd (last : Derivation .expression) : (n before : Nat) → Derivation (.moreItems .expression before)
  | 0, _ => .item ⟨⟨.comma, ",", none, 2⟩, rfl⟩ last .lastItem
  | n + 1, before => .item ⟨⟨.comma, ",", none, 2⟩, rfl⟩ (.plain (truth 2)) (truthsAnd last n (before + 1))

/-- An assignment to `true` with an over-long list on its right, whose item 256 is another assignment to `true`. -/
def misplaced : Derivation .declaration :=
  .statement (toTruth 1 (.plain (layersOf (.call (.reference ⟨⟨.identifier, "f", none, 2⟩, rfl⟩)
    (.apply ⟨⟨.leftParen, "(", none, 2⟩, rfl⟩
      (.items (.plain (truth 2)) (truthsAnd (toTruth 3 (.plain (.ofName ⟨⟨.identifier, "x", none, 4⟩, rfl⟩))) 254 1))
      ⟨⟨.rightParen, ")", none, 4⟩, rfl⟩ .noCall)))))
    ⟨⟨.semicolon, ";", none, 4⟩, rfl⟩

theorem parse_reports_each_misplaced :
    (∀ token ∈ misplaced.tokens, token.kind ≠ .eof) ∧ misplaced.depth ≤ 100 ∧
      (parse misplaced.tokens).statements = [.expression (.literal (.bool true))] ∧
      (parse misplaced.tokens).errors.Perm
        [⟨.invalidAssignmentTarget, 2⟩, ⟨.tooManyArguments 255, 3⟩, ⟨.invalidAssignmentTarget, 4⟩] := by
  have eofFree : ∀ token ∈ misplaced.tokens, token.kind ≠ .eof := by decide +kernel
  have fits : misplaced.depth ≤ 100 := by decide +kernel
  have mistakes : misplaced.mistakes =
      [⟨.invalidAssignmentTarget, 2⟩, ⟨.tooManyArguments 255, 3⟩, ⟨.invalidAssignmentTarget, 4⟩] := by
    decide +kernel
  obtain ⟨statements, errors, -⟩ := parse_reports_each misplaced.tokens eofFree [misplaced]
    (List.forall_mem_singleton.mpr fits) (List.flatMap_singleton ..)
  refine ⟨eofFree, fits, statements, ?_⟩
  rwa [List.flatMap_singleton, mistakes] at errors

end SetScript.Grammar
