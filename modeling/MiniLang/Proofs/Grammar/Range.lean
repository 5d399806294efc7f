/-
Where a parser stands. It starts at a token, goes forward only, and comes to an outcome not
behind the first end of the file. Main statement: this holds of every parser of the grammar,
and of all that is asked of a parser one thing after another.
-/
import MiniLang.Proofs.Grammar.Acceptance
import MiniLang.Proofs.Grammar.Composition

namespace MiniLang

variable {α β : Type}

/-- The index of the first end of the file. -/
def firstEof (tokens : List Token) : Nat := tokens.findIdx Token.isEof

/-- The index of the token that stands some places behind a position, or of the last token
if there are not that many. -/
def readIndex (tokens : List Token) (position offset : Nat) : Nat :=
  min (position + offset) (tokens.length - 1)

/-- The position where a parser stops that starts at a position. -/
def Parser.stopFrom (p : Parser α) (tokens : List Token) (start : Nat) : Nat :=
  tokens.length - (tokensLeft (p (tokens.drop start))).length

/-- Whether looks and steps at a position read a token of the list, and a step leads no
further than to the first end of the file. -/
structure StepsInside (tokens : List Token) (position : Nat) : Prop where
  peek : ∃ token, tokens[readIndex tokens position 0]? = some token ∧
    Parser.peek (tokens.drop position) = .ok token (tokens.drop position)
  peekAt : ∀ offset, ∃ token, tokens[readIndex tokens position offset]? = some token ∧
    Parser.peekAt offset (tokens.drop position) = .ok token.kind (tokens.drop position)
  advance : ∃ token next, tokens[readIndex tokens position 0]? = some token ∧
    next = (if token.isEof then position else position + 1) ∧ next ≤ firstEof tokens ∧
    Parser.advance (tokens.drop position) = .ok () (tokens.drop next)

/-- Whether a parser that starts at a position comes to an outcome: it is not cut off, and
it stops at a position that is not in front of the first one and not behind the first end
of the file. -/
structure Parser.RunsInside (p : Parser α) (tokens : List Token) (start : Nat) : Prop where
  completes : ∀ error rest, p (tokens.drop start) = .error error rest →
    error.fault ≠ .tooDeep
  left : tokensLeft (p (tokens.drop start)) = tokens.drop (p.stopFrom tokens start)
  ahead : start ≤ p.stopFrom tokens start
  inside : p.stopFrom tokens start ≤ firstEof tokens

/-- Whether a parser goes over a token at least whenever it gives an answer. -/
def Parser.GoesOn (p : Parser α) (tokens : List Token) : Prop :=
  ∀ start answer rest, p (tokens.drop start) = .ok answer rest →
    start < p.stopFrom tokens start

/-- Whether parsers are what they say in terms of themselves, where they go through
themselves or repeat a step. No bound on how deep or how often they do so is left. -/
structure ParsersUnfold : Prop where
  expr : Parser.expr = Parser.assignment Parser.expr
  block : Parser.block = Parser.blockBody Parser.block
  decls : Parser.collect Parser.decl? = Parser.round Parser.decl? (Parser.collect Parser.decl?)
  fields : Parser.collect Parser.field? =
    Parser.round Parser.field? (Parser.collect Parser.field?)
  blockVariables : Parser.collect Parser.blockVariable? =
    Parser.round Parser.blockVariable? (Parser.collect Parser.blockVariable?)
  blockStmts : Parser.collect (Parser.blockStmt? Parser.block) =
    Parser.round (Parser.blockStmt? Parser.block)
      (Parser.collect (Parser.blockStmt? Parser.block))
  row : ∀ {α β : Type} (choose : TokenKind → Option β) (item : β → Parser α),
    Punctual choose → (∀ choice, (item choice).Composed) →
      Parser.collect (Parser.after? choose item) =
        Parser.round (Parser.after? choose item) (Parser.collect (Parser.after? choose item))

/-- Whether a reply to a parser that was asked at a position is an outcome in range. With a
program, the parser stops at the first end of the file. -/
structure Reply.InRange (reply : Reply) (tokens : List Token) (start : Nat) : Prop where
  ahead : start ≤ reply.stop
  inside : reply.stop ≤ firstEof tokens
  completed : ∀ error, reply.outcome = .error error → error.fault ≠ .tooDeep
  program : ∀ program, reply.outcome = .ok (.program program) →
    reply.stop = firstEof tokens

/-- Whether a parser of some tokens, of which one thing after another is asked, comes to an
outcome every time and stays in the range of the tokens. -/
structure StaysInRange (tokens : List Token) (requests : List Request) : Prop where
  unfold : ParsersUnfold
  eof : ∃ last, tokens[firstEof tokens]? = some last ∧ last.isEof = true
  steps : ∀ position ≤ firstEof tokens, StepsInside tokens position
  composed : ∀ request : Request, request.parser.Composed
  runs : ∀ {α : Type} (p : Parser α), p.Composed → ∀ start ≤ firstEof tokens,
    p.RunsInside tokens start
  seams : ∀ {α β : Type} (p : Parser α) (f : α → Parser β), p.Composed →
    (∀ answer, (f answer).Composed) → ∀ start ≤ firstEof tokens,
      p.stopFrom tokens start ≤ (p >>= f).stopFrom tokens start
  decl : Parser.decl.Composed ∧ Parser.decl.GoesOn tokens
  varDecl : Parser.varDecl.Composed ∧ Parser.varDecl.GoesOn tokens
  stmt : (Parser.stmt Parser.block).Composed ∧ (Parser.stmt Parser.block).GoesOn tokens
  expr : Parser.expr.Composed ∧ Parser.expr.GoesOn tokens
  replies : (askAll tokens requests 0).length = requests.length
  inRange : ∀ reply ∈ askAll tokens requests 0, reply.InRange tokens 0
  ascending : (0 :: (askAll tokens requests 0).map Reply.stop).Pairwise (· ≤ ·)

section Steps

variable {tokens : List Token} {position : Nat}

theorem Closed.firstEof_lt (h : Closed tokens) : firstEof tokens < tokens.length := by
  obtain ⟨last, hlast, heof⟩ := h
  exact List.findIdx_lt_length.mpr ⟨last, List.mem_of_getLast? hlast, heof⟩

/-- Up to the first end of the file there is no other one. -/
theorem isEof_iff_eq_firstEof (hposition : position ≤ firstEof tokens)
    (hlength : position < tokens.length) :
    tokens[position].isEof = true ↔ position = firstEof tokens := by
  constructor
  · intro heof
    refine Nat.le_antisymm hposition (Nat.le_of_not_lt fun hbefore => ?_)
    have hother : tokens[position].isEof = false := List.not_of_lt_findIdx hbefore
    rw [hother] at heof
    cases heof
  · rintro rfl
    exact List.findIdx_getElem

theorem getElem?_readIndex {offset : Nat} (h : position + offset < tokens.length) :
    tokens[readIndex tokens position offset]? = some tokens[position + offset] := by
  rw [readIndex, Nat.min_eq_left (by omega)]
  exact List.getElem?_eq_getElem h

/-- A look ahead finds the token that is read, and behind the last token the end of the
file once more. -/
theorem Closed.kind_readIndex (h : Closed tokens) (position offset : Nat) :
    ∃ token, tokens[readIndex tokens position offset]? = some token ∧
      (nextToken (tokens.drop (position + offset))).kind = token.kind := by
  by_cases hoffset : position + offset < tokens.length
  · refine ⟨_, getElem?_readIndex hoffset, ?_⟩
    rw [List.drop_eq_getElem_cons hoffset, nextToken_cons]
  · obtain ⟨last, hlast, heof⟩ := h
    refine ⟨last, ?_, ?_⟩
    · rw [readIndex, Nat.min_eq_right (by omega), ← List.getLast?_eq_getElem?]
      exact hlast
    · rw [List.drop_eq_nil_of_le (by omega), beq_iff_eq.mp heof]
      rfl

/-- In a list that ends with the end of the file, no look and no step leads out of the
list. -/
theorem Closed.stepsInside (h : Closed tokens) (hposition : position ≤ firstEof tokens) :
    StepsInside tokens position := by
  have hlength : position < tokens.length := Nat.lt_of_le_of_lt hposition h.firstEof_lt
  have hdrop := List.drop_eq_getElem_cons hlength
  have hhere : tokens[readIndex tokens position 0]? = some tokens[position] :=
    getElem?_readIndex hlength
  constructor
  case peek =>
    refine ⟨_, hhere, ?_⟩
    rw [hdrop]
    rfl
  case peekAt =>
    intro offset
    obtain ⟨token, htoken, hkind⟩ := h.kind_readIndex position offset
    refine ⟨token, htoken, ?_⟩
    rw [← hkind, ← List.drop_drop]
    rfl
  case advance =>
    refine ⟨_, _, hhere, rfl, ?_, ?_⟩
    · split
      · exact hposition
      · have hne := mt (isEof_iff_eq_firstEof hposition hlength).mpr ‹_›
        omega
    · change EStateM.Result.ok () (afterNext (tokens.drop position)) = _
      rw [hdrop, afterNext]
      split
      · rw [hdrop]
      · rfl

end Steps

section Runs

/-- Whether a parser that starts not behind the first end of the file goes forward, but not
behind that. -/
def Parser.Stays (p : Parser α) : Prop :=
  ∀ tokens start, Closed tokens → start ≤ firstEof tokens →
    ∃ stop, start ≤ stop ∧ stop ≤ firstEof tokens ∧
      tokensLeft (p (tokens.drop start)) = tokens.drop stop

theorem Parser.Stays.bind {p : Parser α} {f : α → Parser β} (hp : p.Stays)
    (hf : ∀ answer, (f answer).Stays) : (p >>= f).Stays := by
  intro tokens start hclosed hstart
  obtain ⟨middle, hahead, hinside, hmiddle⟩ := hp tokens start hclosed hstart
  cases hresult : p (tokens.drop start) with
  | error error rest =>
      rw [hresult] at hmiddle
      refine ⟨middle, hahead, hinside, ?_⟩
      rw [Parser.bind_of_error hresult]
      exact hmiddle
  | ok answer rest =>
      rw [hresult] at hmiddle
      obtain rfl : rest = tokens.drop middle := hmiddle
      obtain ⟨stop, hmore, hstop, hleft⟩ := hf answer tokens middle hclosed hinside
      refine ⟨stop, Nat.le_trans hahead hmore, hstop, ?_⟩
      rw [Parser.bind_of_ok hresult, hleft]

theorem Parser.Stays.inherited :
    Parser.Inherited (fun _ => True) fun _ p => p.Stays where
  pure _ _ start _ hstart := ⟨start, Nat.le_refl _, hstart, rfl⟩
  throw _ _ _ _ _ start _ hstart := ⟨start, Nat.le_refl _, hstart, rfl⟩
  peek hf tokens start := hf _ trivial tokens start
  peekAt _ _ start _ hstart := ⟨start, Nat.le_refl _, hstart, rfl⟩
  advance tokens start hclosed hstart := by
    obtain ⟨token, next, _, hnext, hinside, hstep⟩ := (hclosed.stepsInside hstart).advance
    refine ⟨next, ?_, hinside, by rw [hstep]; rfl⟩
    rw [hnext]
    split <;> omega
  bind hp hf := hp.bind hf
  fix {_ body} hbody hkeep tokens start hclosed hstart := by
    have hnested : ∀ depth, Parser.Stays (Parser.nested body depth) := by
      intro depth
      induction depth with
      | zero =>
          exact hkeep _ (Parser.takesFront_throw _) fun _ start _ hstart =>
            ⟨start, Nat.le_refl _, hstart, rfl⟩
      | succ depth ih => exact hkeep _ (Parser.takesFront_nested hbody depth) ih
    exact hnested _ tokens start hclosed hstart

/-- Whether a parser is never cut off. -/
def Parser.Completes (p : Parser α) : Prop :=
  ∀ tokens error rest, p tokens = .error error rest → error.fault ≠ .tooDeep

/-- As deep as a parser goes, it is as good as one that is not cut off at all. -/
theorem Parser.Completes.fix {body : Parser α → Parser α} (hbody : Parser.Progressive body)
    (hkeep : ∀ p, Parser.TakesFront p → p.Completes → (body p).Completes) :
    (Parser.fix body).Completes := by
  intro tokens error rest h
  have hbase : (Parser.failHere .notStatement : Parser α).Completes := by
    rintro _ _ _ ⟨⟩
    exact nofun
  obtain ⟨p, _, hp, hagree⟩ := Parser.exists_agreeBelow hbody
    (Parser.takesFront_failHere .notStatement) hbase hkeep (tokens.length + 1)
  exact hp tokens error rest ((hagree tokens (Nat.lt_succ_self _)).trans h)

theorem Parser.Completes.inherited :
    Parser.Inherited (fun _ => True) fun _ p => p.Completes where
  pure _ _ _ _ := nofun
  throw fault token hfault _ := by
    rintro _ _ _ ⟨⟩
    exact hfault
  peek hf tokens := hf _ trivial tokens
  peekAt _ _ _ _ := nofun
  advance _ _ _ := nofun
  bind {_ _ p _} hp hf tokens error rest h := by
    cases hresult : p tokens with
    | ok answer middle =>
        rw [Parser.bind_of_ok hresult] at h
        exact hf answer middle error rest h
    | error first middle =>
        rw [Parser.bind_of_error hresult] at h
        cases h
        exact hp tokens error rest hresult
  fix hbody hkeep := .fix hbody hkeep

theorem Parser.takesFront_inherited :
    Parser.Inherited (fun _ => True) fun _ p => Parser.TakesFront p where
  pure answer := Parser.takesFront_pure answer
  throw _ _ _ _ := Parser.takesFront_throw _
  peek hf := Parser.takesFront_bind Parser.takesFront_peek fun token => hf token trivial
  peekAt offset := Parser.takesFront_peekAt offset
  advance := Parser.takesFront_advance
  bind hp hf := Parser.takesFront_bind hp hf
  fix hbody _ := Parser.takesFront_fix hbody

theorem parsersUnfold : ParsersUnfold where
  expr := Parser.expr_eq
  block := Parser.block_eq
  decls := Parser.collect_eq Parser.takesFront_decl? Parser.consumes_decl?
  fields := Parser.collect_eq Parser.takesFront_field? Parser.consumes_field?
  blockVariables := Parser.collect_eq Parser.takesFront_blockVariable?
    Parser.consumes_blockVariable?
  blockStmts := Parser.collect_eq (Parser.takesFront_blockStmt? Parser.takesFront_block)
    (Parser.consumes_blockStmt? Parser.takesFront_block)
  row choose item hchoose hitem := by
    have hfront : ∀ choice, Parser.TakesFront (item choice) := fun choice =>
      hitem choice _ _ Parser.takesFront_inherited
    exact Parser.collect_eq (Parser.takesFront_after? hfront)
      (Parser.consumes_after? hchoose hfront)

section Composed

variable {tokens : List Token} {start : Nat} {p : Parser α}

/-- Where a parser stops that leaves what stands behind a position. -/
theorem Parser.stopFrom_eq {stop : Nat}
    (hleft : tokensLeft (p (tokens.drop start)) = tokens.drop stop)
    (hstop : stop ≤ tokens.length) : p.stopFrom tokens start = stop := by
  rw [Parser.stopFrom, hleft, List.length_drop]
  omega

theorem Parser.Composed.runsInside (hp : p.Composed) (hclosed : Closed tokens)
    (hstart : start ≤ firstEof tokens) : p.RunsInside tokens start := by
  obtain ⟨stop, hahead, hinside, hleft⟩ :=
    hp _ _ Parser.Stays.inherited tokens start hclosed hstart
  have hstop : p.stopFrom tokens start = stop :=
    Parser.stopFrom_eq hleft (Nat.le_of_lt (Nat.lt_of_le_of_lt hinside hclosed.firstEof_lt))
  have hcompletes := hp _ _ Parser.Completes.inherited (tokens.drop start)
  refine ⟨hcompletes, ?_, ?_, ?_⟩
  · rw [hstop, hleft]
  · rwa [hstop]
  · rwa [hstop]

/-- Where one parser stops, the next one goes on. -/
theorem Parser.Composed.stopFrom_le_bind {f : α → Parser β} (hp : p.Composed)
    (hf : ∀ answer, (f answer).Composed) (hclosed : Closed tokens)
    (hstart : start ≤ firstEof tokens) :
    p.stopFrom tokens start ≤ (p >>= f).stopFrom tokens start := by
  have hrun := hp.runsInside hclosed hstart
  cases hresult : p (tokens.drop start) with
  | error error rest =>
      rw [Parser.stopFrom, Parser.stopFrom, Parser.bind_of_error hresult, hresult]
      exact Nat.le_refl _
  | ok answer rest =>
      have hleft := hrun.left
      rw [hresult] at hleft
      obtain rfl : rest = tokens.drop (p.stopFrom tokens start) := hleft
      have hmore : (p >>= f).stopFrom tokens start =
          (f answer).stopFrom tokens (p.stopFrom tokens start) := by
        rw [Parser.stopFrom, Parser.bind_of_ok hresult, ← Parser.stopFrom]
      rw [hmore]
      exact ((hf answer).runsInside hclosed hrun.inside).ahead

theorem Parser.goesOn_of_consumes (hp : Parser.Consumes (fun _ => True) p)
    (tokens : List Token) : p.GoesOn tokens := by
  intro start answer rest h
  have hrest := hp _ answer rest h trivial
  rw [List.length_drop] at hrest
  rw [Parser.stopFrom, h]
  change start < tokens.length - rest.length
  omega

end Composed

theorem Parser.consumes_expr : Parser.Consumes (fun _ => True) Parser.expr := by
  intro tokens expr rest h _
  obtain ⟨part, hpart, rfl⟩ := Parser.sound_expr _ _ _ h
  obtain ⟨token, others, htokens, _⟩ := hpart.head
  rw [List.length_append, htokens, List.length_cons]
  omega

end Runs

section Requests

variable {tokens : List Token} {start : Nat}

theorem Request.composed (request : Request) : request.parser.Composed :=
  fun _ _ h => h.request request

/-- A reply is what the parser says, in the position where it stops. -/
theorem Request.ask_eq (request : Request) (tokens : List Token) (start : Nat) :
    (∃ phrase rest, request.parser (tokens.drop start) = .ok phrase rest ∧
        request.ask tokens start = ⟨.ok phrase, request.parser.stopFrom tokens start⟩) ∨
      ∃ error rest, request.parser (tokens.drop start) = .error error rest ∧
        request.ask tokens start = ⟨.error error, request.parser.stopFrom tokens start⟩ := by
  rw [Request.ask, Parser.stopFrom]
  cases request.parser (tokens.drop start) with
  | ok phrase rest => exact .inl ⟨phrase, rest, rfl, rfl⟩
  | error error rest => exact .inr ⟨error, rest, rfl, rfl⟩

/-- A program is read up to an end of the file. -/
theorem Request.program_ends {request : Request} {before rest : List Token}
    {program : Program} (h : request.parser before = .ok (.program program) rest) :
    (nextToken rest).isEof = true := by
  cases request with
  | program =>
      obtain ⟨_, _, hparse, hpure⟩ := Parser.bind_eq_ok_iff.mp h
      obtain ⟨_, rfl⟩ := Parser.pure_eq_ok_iff.mp hpure
      exact Parser.program_ends hparse
  | expr =>
      obtain ⟨_, _, _, hpure⟩ := Parser.bind_eq_ok_iff.mp h
      cases (Parser.pure_eq_ok_iff.mp hpure).1

/-- What one request does, wherever the parser stands when it is asked. -/
theorem Request.ask_inRange (request : Request) (hclosed : Closed tokens)
    (hstart : start ≤ firstEof tokens) :
    (request.ask tokens start).InRange tokens start := by
  have hrun := request.composed.runsInside hclosed hstart
  rcases request.ask_eq tokens start with
    ⟨phrase, rest, hresult, hask⟩ | ⟨error, rest, hresult, hask⟩
  · rw [hask]
    refine ⟨hrun.ahead, hrun.inside, nofun, ?_⟩
    intro program hprogram
    obtain rfl : phrase = .program program := Except.ok.inj hprogram
    have hleft := hrun.left
    rw [hresult] at hleft
    obtain rfl : rest = _ := hleft
    have hends := Request.program_ends hresult
    have hlength := Nat.lt_of_le_of_lt hrun.inside hclosed.firstEof_lt
    rw [List.drop_eq_getElem_cons hlength, nextToken_cons] at hends
    exact (isEof_iff_eq_firstEof hrun.inside hlength).mp hends
  · rw [hask]
    refine ⟨hrun.ahead, hrun.inside, ?_, nofun⟩
    rintro _ ⟨⟩
    exact hrun.completes error rest hresult

/-- What each of the requests does that are asked one after another. -/
theorem inRange_of_mem_askAll {requests : List Request} {reply : Reply}
    (hclosed : Closed tokens) (hstart : start ≤ firstEof tokens)
    (h : reply ∈ askAll tokens requests start) : reply.InRange tokens start := by
  induction requests generalizing start with
  | nil => cases h
  | cons request requests ih =>
      have hfirst := request.ask_inRange hclosed hstart
      rcases List.mem_cons.mp h with rfl | hmore
      · exact hfirst
      · have hlater := ih hfirst.inside hmore
        exact { hlater with ahead := Nat.le_trans hfirst.ahead hlater.ahead }

theorem length_askAll (tokens : List Token) (requests : List Request) (start : Nat) :
    (askAll tokens requests start).length = requests.length := by
  induction requests generalizing start with
  | nil => rfl
  | cons request requests ih => rw [askAll, List.length_cons, ih, List.length_cons]

/-- A parser never goes back, whatever is asked of it. -/
theorem askAll_ascending (requests : List Request) (hclosed : Closed tokens)
    (hstart : start ≤ firstEof tokens) :
    (start :: (askAll tokens requests start).map Reply.stop).Pairwise (· ≤ ·) := by
  induction requests generalizing start with
  | nil => exact List.pairwise_singleton _ _
  | cons request requests ih =>
      have hfirst := request.ask_inRange hclosed hstart
      have hmore := ih hfirst.inside
      rw [askAll, List.map_cons]
      refine List.pairwise_cons.mpr ⟨?_, hmore⟩
      intro stop hstop
      rcases List.mem_cons.mp hstop with rfl | hlater
      · exact hfirst.ahead
      · exact Nat.le_trans hfirst.ahead (List.rel_of_pairwise_cons hmore hlater)

/-- A parser of any tokens, of which anything is asked, comes to an outcome every time, and
it stays in the range of its tokens. -/
theorem askAll_staysInRange (tokens : List Token) (requests : List Request) :
    StaysInRange (closeTokens tokens) requests := by
  have hclosed := closed_closeTokens tokens
  constructor
  case unfold => exact parsersUnfold
  case eof =>
    exact ⟨_, List.getElem?_eq_getElem hclosed.firstEof_lt,
      (isEof_iff_eq_firstEof (Nat.le_refl _) hclosed.firstEof_lt).mpr rfl⟩
  case steps => exact fun _ hposition => hclosed.stepsInside hposition
  case composed => exact Request.composed
  case runs => exact fun _ hp _ hstart => hp.runsInside hclosed hstart
  case seams => exact fun _ _ hp hf _ hstart => hp.stopFrom_le_bind hf hclosed hstart
  case decl => exact ⟨fun _ _ h => h.decl, Parser.goesOn_of_consumes Parser.consumes_decl _⟩
  case varDecl =>
    exact ⟨fun _ _ h => h.varDecl, Parser.goesOn_of_consumes Parser.consumes_varDecl _⟩
  case stmt =>
    exact ⟨fun _ _ h => h.stmt h.block,
      Parser.goesOn_of_consumes (Parser.consumes_stmt Parser.takesFront_block) _⟩
  case expr => exact ⟨fun _ _ h => h.expr, Parser.goesOn_of_consumes Parser.consumes_expr _⟩
  case replies => exact length_askAll _ requests 0
  case inRange => exact fun _ hreply => inRange_of_mem_askAll hclosed (Nat.zero_le _) hreply
  case ascending => exact askAll_ascending requests hclosed (Nat.zero_le _)

end Requests

end MiniLang
