/-
Repetition in the grammar: a parser that repeats a step reads what the items of its
list derive, one behind the other.
-/
import MiniLang.Proofs.Grammar.BlockProgress

namespace MiniLang

variable {α β : Type}

/-- Whatever a parser answers has a derivation, and the parser takes its tokens. -/
def Parser.Sound (p : Parser α) (Derives : Derivation → α → Prop) : Prop :=
  ∀ tokens answer rest, p tokens = .ok answer rest →
    ∃ part, Derives part answer ∧ tokens = part.tokens ++ rest

theorem Parser.sound_fix {body : Parser α → Parser α}
    {Derives : Derivation → α → Prop} (hprogress : Parser.Progressive body)
    (hbody : ∀ p, Parser.TakesFront p → Parser.Sound p Derives →
      Parser.Sound (body p) Derives) :
    Parser.Sound (Parser.fix body) Derives := by
  have hnested : ∀ depth, Parser.Sound (Parser.nested body depth) Derives := by
    intro depth
    induction depth with
    | zero =>
        exact hbody _ (Parser.takesFront_throw _)
          fun _ _ _ h => absurd h Parser.throw_ne_ok
    | succ depth ih => exact hbody _ (Parser.takesFront_nested hprogress depth) ih
  exact fun tokens => hnested tokens.length tokens

/-- Something is read behind a chosen token exactly if such a token comes next. -/
theorem Parser.after?_eq_some_iff {choose : TokenKind → Option β}
    {item : β → Parser α} (hchoose : Punctual choose) {tokens rest : List Token}
    {answer : α} :
    Parser.after? choose item tokens = .ok (some answer) rest ↔
      ∃ token others choice, tokens = token :: others ∧
        choose token.kind = some choice ∧ item choice others = .ok answer rest := by
  constructor
  · intro h
    cases hchoice : choose (nextToken tokens).kind with
    | none =>
        rw [Parser.after?_eq_none hchoice] at h
        exact absurd h (by simp)
    | some choice =>
        have hkind : (nextToken tokens).kind ≠ .eof := by
          intro heof
          rw [heof, hchoose] at hchoice
          exact absurd hchoice (by simp)
        obtain ⟨token, others, rfl, htoken⟩ := eq_cons_of_nextToken rfl hkind
        rw [Parser.after?_eq_some hchoice, afterNext_cons (htoken ▸ hkind)] at h
        obtain ⟨item, middle, hitem, hpure⟩ := Parser.bind_eq_ok_iff.mp h
        obtain ⟨hanswer, rfl⟩ := Parser.pure_eq_ok_iff.mp hpure
        cases hanswer
        exact ⟨token, others, choice, rfl, hchoice, hitem⟩
  · rintro ⟨token, others, choice, rfl, hchoice, hitem⟩
    have hkind : token.kind ≠ .eof := by
      intro heof
      rw [heof, hchoose] at hchoice
      exact absurd hchoice (by simp)
    rw [Parser.after?_eq_some hchoice, afterNext_cons hkind,
      Parser.bind_of_ok hitem]
    rfl

theorem Parser.after?_eq_none_iff {choose : TokenKind → Option β}
    {item : β → Parser α} {tokens rest : List Token} :
    Parser.after? choose item tokens = .ok none rest ↔
      choose (nextToken tokens).kind = none ∧ tokens = rest := by
  constructor
  · intro h
    cases hchoice : choose (nextToken tokens).kind with
    | none =>
        rw [Parser.after?_eq_none hchoice] at h
        cases h
        exact ⟨rfl, rfl⟩
    | some choice =>
        rw [Parser.after?_eq_some hchoice] at h
        obtain ⟨item, middle, _, hpure⟩ := Parser.bind_eq_ok_iff.mp h
        exact absurd (Parser.pure_eq_ok_iff.mp hpure).1 (by simp)
  · rintro ⟨hchoice, rfl⟩
    exact Parser.after?_eq_none hchoice

section Collect

variable {Part : Type} {step : Parser (Option α)} (tokensOf : Part → List Token)
  (value : Part → α) (hfront : Parser.TakesFront step)
  (hconsumes : Parser.Consumes (·.isSome) step)

include hfront hconsumes

/-- What a repetition reads are the parts that its step reads. -/
theorem Parser.collect_sound (Valid : Part → Prop)
    (hsome : ∀ tokens answer rest, step tokens = .ok (some answer) rest →
      ∃ part, Valid part ∧ value part = answer ∧ tokens = tokensOf part ++ rest)
    (hnone : ∀ tokens rest, step tokens = .ok none rest → tokens = rest)
    {tokens rest : List Token} {items : List α}
    (h : Parser.collect step tokens = .ok items rest) :
    ∃ parts : List Part, (∀ part ∈ parts, Valid part) ∧ parts.map value = items ∧
      tokens = parts.flatMap tokensOf ++ rest := by
  induction hlength : tokens.length using Nat.strongRecOn
    generalizing tokens items with
  | ind length ih =>
    rw [Parser.collect_eq hfront hconsumes, Parser.round,
      Parser.bind_eq_ok_iff] at h
    obtain ⟨first, middle, hstep, hmore⟩ := h
    cases first with
    | none =>
        obtain ⟨rfl, rfl⟩ := Parser.pure_eq_ok_iff.mp hmore
        exact ⟨[], by simp, rfl, hnone tokens middle hstep⟩
    | some item =>
        obtain ⟨others, last, hothers, hpure⟩ := Parser.bind_eq_ok_iff.mp hmore
        obtain ⟨rfl, rfl⟩ := Parser.pure_eq_ok_iff.mp hpure
        have hmiddle := hconsumes tokens (some item) middle hstep rfl
        obtain ⟨part, hpart, rfl, rfl⟩ := hsome tokens item middle hstep
        obtain ⟨parts, hparts, rfl, rfl⟩ :=
          ih middle.length (by omega) hothers rfl
        refine ⟨part :: parts, ?_, rfl, by simp⟩
        simpa [hpart] using hparts

/-- A repetition reads parts behind each other up to where its step stops. `Ends`
says of a list that what stands in front of it can end there. -/
theorem Parser.collect_complete (Ends : List Token → Prop) (rest : List Token)
    (hstop : step rest = .ok none rest) (hends : Ends rest) (parts : List Part)
    (hparts : ∀ part ∈ parts, ∀ behind, Ends (tokensOf part ++ behind))
    (hstep : ∀ part ∈ parts, ∀ behind, Ends behind →
      step (tokensOf part ++ behind) = .ok (some (value part)) behind) :
    Parser.collect step (parts.flatMap tokensOf ++ rest) =
      .ok (parts.map value) rest := by
  induction parts with
  | nil =>
      rw [Parser.collect_eq hfront hconsumes, Parser.round]
      exact Parser.bind_of_ok hstop
  | cons part parts ih =>
      have hmore := ih (fun other hother => hparts other (by simp [hother]))
        fun other hother => hstep other (by simp [hother])
      have hbehind : Ends (parts.flatMap tokensOf ++ rest) := by
        cases parts with
        | nil => exact hends
        | cons second others =>
            rw [List.flatMap_cons, List.append_assoc]
            exact hparts second (by simp) _
      rw [Parser.collect_eq hfront hconsumes, Parser.round, List.flatMap_cons,
        List.append_assoc]
      rw [Parser.bind_of_ok (hstep part (by simp) _ hbehind)]
      exact Parser.bind_of_ok hmore

end Collect

theorem kind_of_chooseMark {mark : Punct} {kind : TokenKind} {choice : Unit}
    (h : chooseMark mark kind = some choice) : kind = .punct mark := by
  rw [chooseMark] at h
  split at h
  case isTrue hkind => exact hkind
  case isFalse => exact absurd h (by simp)

def Listing.tokens (listing : Listing α) : List Token :=
  listing.parts.flatMap Derivation.tokens

/-- What is read as items with commas is derived as a list. -/
theorem Parser.commaSeparated_sound {item : Parser α}
    {Derives : Derivation → α → Prop} (hfront : Parser.TakesFront item)
    (hitem : Parser.Sound item Derives) {tokens rest : List Token}
    {values : List α} (h : Parser.commaSeparated item tokens = .ok values rest) :
    ∃ listing : Listing α, listing.Separated ∧
      (∀ member ∈ listing.members, Derives member.1 member.2) ∧
      listing.values = values ∧ tokens = listing.tokens ++ rest := by
  obtain ⟨first, middle, hfirst, hmore⟩ := Parser.bind_eq_ok_iff.mp h
  obtain ⟨others, last, hothers, hpure⟩ := Parser.bind_eq_ok_iff.mp hmore
  obtain ⟨rfl, rfl⟩ := Parser.pure_eq_ok_iff.mp hpure
  obtain ⟨part, hpart, rfl⟩ := hitem tokens first middle hfirst
  have hstep : ∀ tokens answer rest,
      Parser.after? (chooseMark .comma) (fun _ => item) tokens =
        .ok (some answer) rest →
      ∃ other : Member α,
        (other.comma.kind = .punct .comma ∧ Derives other.part other.value) ∧
        other.value = answer ∧ tokens = other.comma :: other.part.tokens ++ rest := by
    intro tokens answer rest hstep
    obtain ⟨comma, behind, _, rfl, hcomma, hanswer⟩ :=
      (Parser.after?_eq_some_iff (punctual_chooseMark .comma)).mp hstep
    obtain ⟨part, hpart, rfl⟩ := hitem behind answer rest hanswer
    exact ⟨⟨comma, part, answer⟩, ⟨kind_of_chooseMark hcomma, hpart⟩, rfl, rfl⟩
  obtain ⟨members, hmembers, rfl, rfl⟩ := Parser.collect_sound
    (fun other : Member α => other.comma :: other.part.tokens) Member.value
    (Parser.takesFront_after? fun _ => hfront)
    (Parser.consumes_after? (punctual_chooseMark .comma) fun _ => hfront)
    (fun other => other.comma.kind = .punct .comma ∧ Derives other.part other.value)
    hstep (fun _ _ hnone => (Parser.after?_eq_none_iff.mp hnone).2) hothers
  refine ⟨.items part first members, fun other hother => (hmembers other hother).1,
    ?_, rfl, ?_⟩
  · intro member hmember
    simp only [Listing.members, List.mem_cons, List.mem_map] at hmember
    rcases hmember with rfl | ⟨other, hother, rfl⟩
    · exact hpart
    · exact (hmembers other hother).2
  · simp [Listing.tokens, Listing.parts, List.flatMap_assoc]

theorem Parser.parenthesized_sound {opening closing : String} {item : Parser α}
    {Derives : Derivation → α → Prop} (hfront : Parser.TakesFront item)
    (hitem : Parser.Sound item Derives) {tokens rest : List Token} {values : List α}
    (h : Parser.parenthesized opening closing item tokens = .ok values rest) :
    ∃ (left right : Token) (listing : Listing α),
      left.kind = .punct .leftParen ∧ listing.Separated ∧
      (∀ member ∈ listing.members, Derives member.1 member.2) ∧
      right.kind = .punct .rightParen ∧ listing.values = values ∧
      tokens = left :: listing.tokens ++ right :: rest := by
  obtain ⟨_, inside, hleft, hinside⟩ := Parser.bind_eq_ok_iff.mp h
  obtain ⟨left, rfl, hleftKind⟩ := Parser.expect_eq_ok_iff.mp hleft
  rw [Parser.sees_bind] at hinside
  cases hseen : (nextToken inside).kind == .punct .rightParen with
  | true =>
      rw [hseen, if_pos rfl] at hinside
      obtain ⟨_, _, hnil, hclosing⟩ := Parser.bind_eq_ok_iff.mp hinside
      obtain ⟨rfl, rfl⟩ := Parser.pure_eq_ok_iff.mp hnil
      obtain ⟨_, _, hright, hpure⟩ := Parser.bind_eq_ok_iff.mp hclosing
      obtain ⟨right, rfl, hrightKind⟩ := Parser.expect_eq_ok_iff.mp hright
      obtain ⟨rfl, rfl⟩ := Parser.pure_eq_ok_iff.mp hpure
      exact ⟨left, right, .empty, hleftKind, trivial, by simp [Listing.members],
        hrightKind, rfl, rfl⟩
  | false =>
      rw [hseen, if_neg (by simp)] at hinside
      obtain ⟨items, _, hitems, hclosing⟩ := Parser.bind_eq_ok_iff.mp hinside
      obtain ⟨_, _, hright, hpure⟩ := Parser.bind_eq_ok_iff.mp hclosing
      obtain ⟨right, rfl, hrightKind⟩ := Parser.expect_eq_ok_iff.mp hright
      obtain ⟨rfl, rfl⟩ := Parser.pure_eq_ok_iff.mp hpure
      obtain ⟨listing, hseparated, hmembers, hvalues, rfl⟩ :=
        Parser.commaSeparated_sound hfront hitem hitems
      exact ⟨left, right, listing, hleftKind, hseparated, hmembers, hrightKind,
        hvalues, rfl⟩

/-- A parser reads what a derivation derives, in front of anything where a phrase of
its kind can end. -/
def Parser.Reads (p : Parser α) (Ends : List Token → Prop) (part : Derivation)
    (value : α) : Prop :=
  ∀ rest, Ends rest → p (part.tokens ++ rest) = .ok value rest

/-- Whether an item can end in front of a comma or a closing parenthesis. -/
structure EndsInList (Ends : List Token → Prop) : Prop where
  comma : ∀ token rest, token.kind = .punct .comma → Ends (token :: rest)
  closing : ∀ token rest, token.kind = .punct .rightParen → Ends (token :: rest)

/-- A list of items is read up to the parenthesis that closes it. -/
theorem Parser.commaSeparated_complete {item : Parser α}
    {Ends : List Token → Prop} (hends : EndsInList Ends)
    (hfront : Parser.TakesFront item) {part : Derivation} {value : α}
    {others : List (Member α)}
    (hcommas : ∀ other ∈ others, other.comma.kind = .punct .comma)
    (hpart : Parser.Reads item Ends part value)
    (hothers : ∀ other ∈ others, Parser.Reads item Ends other.part other.value)
    {right : Token} (hright : right.kind = .punct .rightParen) (rest : List Token) :
    Parser.commaSeparated item
        ((Listing.items part value others).tokens ++ right :: rest) =
      .ok (value :: others.map Member.value) (right :: rest) := by
  have hcollect := Parser.collect_complete
    (fun other : Member α => other.comma :: other.part.tokens) Member.value
    (Parser.takesFront_after? fun _ => hfront)
    (Parser.consumes_after? (punctual_chooseMark .comma) fun _ => hfront)
    Ends (right :: rest) ?_ (hends.closing right rest hright) others ?_ ?_
  · have htokens : (Listing.items part value others).tokens ++ right :: rest =
        part.tokens ++ (others.flatMap (fun other => other.comma :: other.part.tokens)
          ++ right :: rest) := by
      simp [Listing.tokens, Listing.parts, List.flatMap_assoc]
    have hbehind : Ends (others.flatMap (fun other => other.comma :: other.part.tokens)
        ++ right :: rest) := by
      cases others with
      | nil => exact hends.closing right rest hright
      | cons other others => exact hends.comma _ _ (hcommas other (by simp))
    rw [htokens, Parser.commaSeparated, Parser.bind_of_ok (hpart _ hbehind),
      Parser.bind_of_ok hcollect]
    rfl
  · exact Parser.after?_eq_none (by simp [chooseMark, hright])
  · exact fun other hother behind => hends.comma _ _ (hcommas other hother)
  · intro other hother behind hbehind
    refine (Parser.after?_eq_some_iff (punctual_chooseMark .comma)).mpr
      ⟨other.comma, other.part.tokens ++ behind, (), rfl, ?_,
        hothers other hother behind hbehind⟩
    simp [chooseMark, hcommas other hother]

/-- A list in parentheses is read as a whole, whatever stands behind it. -/
theorem Parser.parenthesized_complete {opening closing : String} {item : Parser α}
    {Ends : List Token → Prop} (hends : EndsInList Ends)
    (hfront : Parser.TakesFront item) {listing : Listing α}
    (hseparated : listing.Separated)
    (hmembers : ∀ member ∈ listing.members,
      Parser.Reads item Ends member.1 member.2)
    (hheads : ∀ member ∈ listing.members, ∃ token tokens,
      member.1.tokens = token :: tokens ∧ token.kind ≠ .punct .rightParen)
    {left right : Token} (hleft : left.kind = .punct .leftParen)
    (hright : right.kind = .punct .rightParen) (rest : List Token) :
    Parser.parenthesized opening closing item
        (left :: listing.tokens ++ right :: rest) =
      .ok listing.values rest := by
  have hopening : Parser.expect .leftParen opening
      (left :: (listing.tokens ++ right :: rest)) =
        .ok () (listing.tokens ++ right :: rest) :=
    Parser.expect_eq_ok_iff.mpr ⟨left, rfl, hleft⟩
  have hclosing : Parser.expect .rightParen closing (right :: rest) = .ok () rest :=
    Parser.expect_eq_ok_iff.mpr ⟨right, rfl, hright⟩
  rw [List.cons_append, Parser.parenthesized, Parser.bind_of_ok hopening,
    Parser.sees_bind]
  cases listing with
  | empty =>
      have hseen : (nextToken (right :: rest)).kind == .punct .rightParen := by
        simp [hright]
      simp only [Listing.tokens, Listing.parts, List.flatMap_nil, List.nil_append]
      rw [if_pos hseen]
      exact Parser.bind_of_ok hclosing
  | items part value others =>
      obtain ⟨token, tokens, htokens, hkind⟩ :=
        hheads (part, value) (by simp [Listing.members])
      have hseen : ¬ ((nextToken ((Listing.items part value others).tokens
          ++ right :: rest)).kind == .punct .rightParen) = true := by
        simp [Listing.tokens, Listing.parts, htokens, hkind]
      rw [if_neg hseen]
      have hitems := Parser.commaSeparated_complete hends hfront hseparated
        (hmembers (part, value) (by simp [Listing.members]))
        (fun other hother => hmembers (other.part, other.value)
          (by
            simp only [Listing.members, List.mem_cons, List.mem_map]
            exact .inr ⟨other, hother, rfl⟩))
        hright rest
      exact (Parser.bind_of_ok hitems).trans (Parser.bind_of_ok hclosing)

end MiniLang
