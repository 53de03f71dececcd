import SetScript.Parser.Expression
/-!
# Runs that give a result

`p.Gives endLine tokens a rest reports` says how a run of `p` without an error ends. What a composed parser
gives is told here in terms of what its parts give, and a loop of rounds needs one induction for all grammars
(`gives_iterate_iff`).
-/

namespace SetScript.Parser

variable {α β σ : Type} {endLine : Nat} {tokens rest : List Token} {reports : List SyntaxError}

/-- The parser gives the result `a`, leaves `rest` and makes the reports. -/
def Gives (p : Parser α) (endLine : Nat) (tokens : List Token) (a : α) (rest : List Token)
    (reports : List SyntaxError) : Prop :=
  p.run endLine tokens = ⟨.ok a, rest, reports⟩

theorem gives_pure {a b : α} :
    (pure a : Parser α).Gives endLine tokens b rest reports ↔ a = b ∧ tokens = rest ∧ [] = reports := by
  simp [Gives, run_pure]

theorem gives_bind {p : Parser α} {f : α → Parser β} {b : β} :
    (p >>= f).Gives endLine tokens b rest reports ↔
      ∃ a between before behind, p.Gives endLine tokens a between before ∧
        (f a).Gives endLine between b rest behind ∧ before ++ behind = reports := by
  unfold Gives
  rw [run_bind]
  obtain ⟨result, between, before⟩ := p.run endLine tokens
  cases result with
  | error e => simp
  | ok a =>
    obtain ⟨second, hs⟩ : ∃ second, (f a).run endLine between = second := ⟨_, rfl⟩
    dsimp only
    rw [hs]
    constructor
    · intro h
      simp only [Reply.mk.injEq] at h
      obtain ⟨hr, rfl, rfl⟩ := h
      exact ⟨a, between, before, second.reports, rfl, by rw [hs, ← hr], rfl⟩
    · rintro ⟨a', between', before', behind', h, hb, rfl⟩
      simp only [Reply.mk.injEq, Except.ok.injEq] at h
      obtain ⟨rfl, rfl, rfl⟩ := h
      rw [← hs, hb]

theorem run_peek?_bind (k : Option Token → Parser α) (endLine : Nat) (tokens : List Token) :
    (peek? >>= k).run endLine tokens = (k tokens.head?).run endLine tokens := rfl

theorem run_skip_bind (k : Unit → Parser α) (endLine : Nat) (token : Token) (tokens : List Token) :
    (skip >>= k).run endLine (token :: tokens) = (k ()).run endLine tokens := rfl

theorem gives_peek?_bind {f : Option Token → Parser α} {a : α} :
    (peek? >>= f).Gives endLine tokens a rest reports ↔ (f tokens.head?).Gives endLine tokens a rest reports := by
  rw [Gives, run_peek?_bind, Gives]

theorem gives_skip_bind {f : Unit → Parser α} {token : Token} {a : α} :
    (skip >>= f).Gives endLine (token :: tokens) a rest reports ↔ (f ()).Gives endLine tokens a rest reports := by
  rw [Gives, run_skip_bind, Gives]

theorem not_gives_fail {cause : SyntaxError.Cause} {a : α} :
    ¬ (fail cause : Parser α).Gives endLine tokens a rest reports := by
  simp [Gives, fail]

theorem gives_report {error : SyntaxError} {u : Unit} :
    (report error).Gives endLine tokens u rest reports ↔ tokens = rest ∧ [error] = reports := by
  simp [Gives, report]

theorem gives_reportHere {cause : SyntaxError.Cause} {u : Unit} :
    (reportHere cause).Gives endLine tokens u rest reports ↔
      tokens = rest ∧ [⟨cause, currentLine endLine tokens⟩] = reports := by
  simp [Gives, reportHere]

theorem not_gives_unexpected {expected : String} {a : α} :
    ¬ (unexpected expected : Parser α).Gives endLine tokens a rest reports := by
  unfold unexpected
  rw [gives_peek?_bind]
  cases tokens.head? <;> exact not_gives_fail

/-- Taking the first token if it is wanted. -/
theorem gives_accept?_bind {accept : Token → Option α} {f : Option α → Parser β} {b : β} :
    (accept? accept >>= f).Gives endLine tokens b rest reports ↔
      (∃ token between a, tokens = token :: between ∧ accept token = some a ∧
        (f (some a)).Gives endLine between b rest reports) ∨
      (tokens.head?.bind accept = none ∧ (f none).Gives endLine tokens b rest reports) := by
  unfold Gives
  rw [run_bind, run_accept?]
  cases tokens with
  | nil => exact ⟨fun hf => .inr ⟨rfl, hf⟩, fun h => by obtain ⟨_, _, _, he, -⟩ | ⟨-, hf⟩ := h; cases he; exact hf⟩
  | cons token tokens =>
    rw [List.head?_cons, Option.bind_some]
    cases h : accept token with
    | none =>
      refine ⟨fun hf => .inr ⟨rfl, hf⟩, ?_⟩
      rintro (⟨token', between, a, he, ha, -⟩ | ⟨-, hf⟩)
      · obtain ⟨rfl, -⟩ := List.cons.inj he
        rw [h] at ha
        cases ha
      · exact hf
    | some a =>
      refine ⟨fun hf => .inl ⟨token, tokens, a, rfl, h, hf⟩, ?_⟩
      rintro (⟨token', between, a', he, ha, hf⟩ | ⟨hn, -⟩)
      · obtain ⟨rfl, rfl⟩ := List.cons.inj he
        obtain rfl : a = a' := Option.some.inj (h.symm.trans ha)
        exact hf
      · cases hn

/-- Taking a token that must follow. -/
theorem gives_expect {kind : Kind} {expected : String} {token : Token} :
    (expect kind expected).Gives endLine tokens token rest reports ↔
      tokens = token :: rest ∧ token.kind = kind ∧ [] = reports := by
  unfold Gives
  cases tokens with
  | nil => simp [run_expect_nil]
  | cons first tokens =>
    rw [run_expect_cons]
    by_cases h : first.kind = kind
    · rw [if_pos h]
      simp only [Reply.mk.injEq, Except.ok.injEq, List.cons.injEq]
      constructor
      · rintro ⟨rfl, rfl, rfl⟩
        exact ⟨⟨rfl, rfl⟩, h, rfl⟩
      · rintro ⟨⟨rfl, rfl⟩, -, rfl⟩
        exact ⟨rfl, rfl, rfl⟩
    · rw [if_neg h]
      simp only [reduceCtorEq, Reply.mk.injEq, false_and, List.cons.injEq, false_iff]
      rintro ⟨⟨rfl, -⟩, hk, -⟩
      exact h hk

theorem gives_expect_bind {kind : Kind} {expected : String} {f : Token → Parser α} {a : α} :
    (expect kind expected >>= f).Gives endLine tokens a rest reports ↔
      ∃ token between, tokens = token :: between ∧ token.kind = kind ∧
        (f token).Gives endLine between a rest reports := by
  rw [gives_bind]
  constructor
  · rintro ⟨token, between, before, behind, hp, hf, rfl⟩
    obtain ⟨rfl, hk, rfl⟩ := gives_expect.mp hp
    exact ⟨token, between, rfl, hk, hf⟩
  · rintro ⟨token, between, rfl, hk, hf⟩
    exact ⟨token, between, [], reports, gives_expect.mpr ⟨rfl, hk, rfl⟩, hf, List.nil_append _⟩

/-! ## Loops -/

variable {accept : Token → Option σ} {next : σ → α → Parser α}

theorem gives_iterate_stop {a b : α} (h : tokens.head?.bind accept = none) :
    (iterate accept next a).Gives endLine tokens b rest reports ↔ a = b ∧ tokens = rest ∧ [] = reports := by
  unfold Gives iterate
  cases tokens with
  | nil => simp [iterateReply]
  | cons token tokens =>
    rw [List.head?_cons, Option.bind_some] at h
    simp [iterateReply, h]

theorem gives_iterate_next {a b : α} {token : Token} {s : σ} (h : accept token = some s) :
    (iterate accept next a).Gives endLine (token :: tokens) b rest reports ↔
      ∃ a' between before behind, (next s a).Gives endLine tokens a' between before ∧
        (iterate accept next a').Gives endLine between b rest behind ∧ before ++ behind = reports := by
  rw [← gives_bind]
  unfold Gives iterate
  simp only [run_bind, iterateReply, h]

/-- A relation between the ends of a loop holds of all runs that give a result when it holds of a loop that
stops and, round by round, of one that goes on. The streams it is used at are those that `reached` holds of. -/
theorem gives_iterate_iff (reached : List Token → Prop)
    (loop : α → List Token → α → List Token → List SyntaxError → Prop)
    (reached_next : ∀ {s a tokens a' rest reports}, (next s a).Gives endLine tokens a' rest reports → reached rest)
    (stop : ∀ {tokens a b rest reports}, reached tokens → tokens.head?.bind accept = none →
      (loop a tokens b rest reports ↔ a = b ∧ tokens = rest ∧ [] = reports))
    (go : ∀ {token s tokens a b rest reports}, accept token = some s →
      (loop a (token :: tokens) b rest reports ↔
        ∃ a' between before behind, (next s a).Gives endLine tokens a' between before ∧
          loop a' between b rest behind ∧ before ++ behind = reports))
    {a b : α} (h : reached tokens) :
    (iterate accept next a).Gives endLine tokens b rest reports ↔ loop a tokens b rest reports := by
  -- A round takes at least the token that it was begun with, so the induction is on the length of the stream.
  induction hn : tokens.length using Nat.strongRecOn generalizing tokens a rest reports with
  | ind n ih =>
    cases tokens with
    | nil => rw [gives_iterate_stop rfl, stop h rfl]
    | cons token tokens =>
      cases hs : accept token with
      | none => rw [gives_iterate_stop (by simpa using hs), stop h (by simpa using hs)]
      | some s =>
        rw [gives_iterate_next hs, go hs]
        have shorter : ∀ {a' between before}, (next s a).Gives endLine tokens a' between before →
            between.length < n := by
          intro a' between before hb
          have := ((next s a).rest_suffix endLine tokens).length_le
          rw [show (next s a).run endLine tokens = _ from hb] at this
          simp only [List.length_cons] at hn
          dsimp only at this
          omega
        refine exists_congr fun a' => exists_congr fun between => exists_congr fun before =>
          exists_congr fun behind => ?_
        constructor
        · rintro ⟨hb, hr, he⟩
          exact ⟨hb, (ih _ (shorter hb) (reached_next hb) rfl).mp hr, he⟩
        · rintro ⟨hb, hr, he⟩
          exact ⟨hb, (ih _ (shorter hb) (reached_next hb) rfl).mpr hr, he⟩

end SetScript.Parser
