import SetScript.Proofs.Parser.Success
/-!
# Runs that the nesting limit stops

`p.Overruns endLine stream left reports` says that the nesting limit stops a run of `p` in front of `left`. A composed
parser is stopped where one of its parts is, when the parts before it give a result: the lemmas follow those on
`Parser.Gives`.
-/

namespace SetScript.Parser

variable {α β σ : Type} {p : Parser α} {f : α → Parser β} {endLine : Nat} {stream tokens between left : List Token}
  {reports before behind : List SyntaxError}

/-- The nesting limit stops the parser in front of `left`, and till then it has made the first of some reports. -/
def Overruns (p : Parser α) (endLine : Nat) (stream left : List Token) (reports : List SyntaxError) : Prop :=
  ∃ made, made <+: reports ∧
    p.run endLine stream = ⟨.error ⟨.nestingTooDeep maxNesting, currentLine endLine left⟩, left, made⟩

theorem overruns_fail : (fail (.nestingTooDeep maxNesting) : Parser α).Overruns endLine stream stream reports :=
  ⟨[], List.nil_prefix, rfl⟩

/-- What would be reported behind makes no difference. -/
theorem Overruns.mono (h : p.Overruns endLine stream left before) (more : before <+: reports) :
    p.Overruns endLine stream left reports := by
  obtain ⟨made, first, hr⟩ := h
  exact ⟨made, first.trans more, hr⟩

theorem Overruns.bind (h : p.Overruns endLine stream left reports) (f : α → Parser β) :
    (p >>= f).Overruns endLine stream left reports := by
  obtain ⟨made, first, hr⟩ := h
  exact ⟨made, first, by rw [run_bind, hr]⟩

theorem overruns_bind {a : α} (hp : p.Gives endLine stream a between before)
    (h : (f a).Overruns endLine between left behind) : (p >>= f).Overruns endLine stream left (before ++ behind) := by
  obtain ⟨made, first, hr⟩ := h
  refine ⟨before ++ made, (List.prefix_append_right_inj _).mpr first, ?_⟩
  rw [run_bind, show p.run endLine stream = _ from hp]
  dsimp only
  rw [hr]

/-- A parser that reports nothing comes first. -/
theorem overruns_quiet_bind {a : α} (hp : p.Gives endLine stream a between [])
    (h : (f a).Overruns endLine between left reports) : (p >>= f).Overruns endLine stream left reports :=
  overruns_bind hp h

theorem overruns_peek?_bind {f : Option Token → Parser β} (h : (f stream.head?).Overruns endLine stream left reports) :
    (peek? >>= f).Overruns endLine stream left reports := by
  rwa [Overruns, run_peek?_bind]

theorem overruns_skip_bind {f : Unit → Parser β} {token : Token} (h : (f ()).Overruns endLine tokens left reports) :
    (skip >>= f).Overruns endLine (token :: tokens) left reports := by
  rwa [Overruns, run_skip_bind]

theorem overruns_accept?_some_bind {accept : Token → Option α} {f : Option α → Parser β} {token : Token} {a : α}
    (ha : accept token = some a) (h : (f (some a)).Overruns endLine tokens left reports) :
    (accept? accept >>= f).Overruns endLine (token :: tokens) left reports := by
  have taken : (accept? accept).Gives endLine (token :: tokens) (some a) tokens [] := by
    rw [Gives, run_accept?, List.head?_cons, Option.bind_some, ha]
    rfl
  exact overruns_quiet_bind taken h

theorem overruns_accept?_none_bind {accept : Token → Option α} {f : Option α → Parser β}
    (hn : stream.head?.bind accept = none) (h : (f none).Overruns endLine stream left reports) :
    (accept? accept >>= f).Overruns endLine stream left reports := by
  have kept : (accept? accept).Gives endLine stream none stream [] := by rw [Gives, run_accept?, hn]
  exact overruns_quiet_bind kept h

theorem overruns_expect_bind {kind : Kind} {expected : String} {f : Token → Parser β} {token : Token}
    (hk : token.kind = kind) (h : (f token).Overruns endLine tokens left reports) :
    (expect kind expected >>= f).Overruns endLine (token :: tokens) left reports := by
  have taken : (expect kind expected).Gives endLine (token :: tokens) token tokens [] := by
    rw [Gives, run_expect_cons, if_pos hk]
  exact overruns_quiet_bind taken h

/-- A loop takes a token and goes on with the round for it, and then with the rounds behind. -/
theorem overruns_iterate {accept : Token → Option σ} {next : σ → α → Parser α} {token : Token} {s : σ} {a : α}
    (hs : accept token = some s) (h : (next s a >>= iterate accept next).Overruns endLine tokens left reports) :
    (iterate accept next a).Overruns endLine (token :: tokens) left reports := by
  obtain ⟨made, first, hr⟩ := h
  refine ⟨made, first, ?_⟩
  rw [← hr, run_bind]
  simp only [iterate, iterateReply, hs]

end SetScript.Parser
