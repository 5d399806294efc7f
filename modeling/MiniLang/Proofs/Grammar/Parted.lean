/-
Rows of phrases that are parted: where they can end, they derive the beginning of one
list only if they are the same row.
-/
import MiniLang.Proofs.Grammar.Repetition

namespace MiniLang

/-- Whether two rows of phrases derive the beginning of the same list only if they are
the same row, as long as what they leave is where they can end. -/
def Parted (Ends : List Token → Prop) (parts parts' : List Derivation) : Prop :=
  ∀ rest rest', Ends rest → Ends rest' →
    parts.flatMap Derivation.tokens ++ rest =
      parts'.flatMap Derivation.tokens ++ rest' →
    parts = parts' ∧ rest = rest'

section Parted

variable {Ends Inner : List Token → Prop} {parts parts' more more' : List Derivation}

theorem Parted.nil : Parted Ends [] [] := fun _ _ _ _ h => ⟨rfl, h⟩

theorem Parted.mono (h : Parted Inner parts parts')
    (hends : ∀ rest, Ends rest → Inner rest) : Parted Ends parts parts' :=
  fun rest rest' hrest hrest' => h rest rest' (hends rest hrest) (hends rest' hrest')

/-- What stands behind the parts of a row is where those can end. -/
theorem Parted.append (h : Parted Inner parts parts') (hmore : Parted Ends more more')
    (hends : ∀ rest, Ends rest → Inner (more.flatMap Derivation.tokens ++ rest))
    (hends' : ∀ rest, Ends rest → Inner (more'.flatMap Derivation.tokens ++ rest)) :
    Parted Ends (parts ++ more) (parts' ++ more') := by
  intro rest rest' hrest hrest' htokens
  rw [List.flatMap_append, List.flatMap_append, List.append_assoc,
    List.append_assoc] at htokens
  obtain ⟨rfl, hbehind⟩ := h _ _ (hends rest hrest) (hends' rest' hrest') htokens
  obtain ⟨rfl, rfl⟩ := hmore rest rest' hrest hrest' hbehind
  exact ⟨rfl, rfl⟩

theorem Parted.cons {part part' : Derivation} (h : Parted Inner [part] [part'])
    (hmore : Parted Ends more more')
    (hends : ∀ rest, Ends rest → Inner (more.flatMap Derivation.tokens ++ rest))
    (hends' : ∀ rest, Ends rest → Inner (more'.flatMap Derivation.tokens ++ rest)) :
    Parted Ends (part :: more) (part' :: more') :=
  Parted.append h hmore hends hends'

theorem Parted.leaf (token token' : Token) (hmore : Parted Ends more more') :
    Parted Ends (.leaf token :: more) (.leaf token' :: more') := by
  intro rest rest' hrest hrest' htokens
  simp only [List.flatMap_cons, Derivation.tokens_leaf, List.cons_append,
    List.nil_append, List.cons.injEq] at htokens
  obtain ⟨rfl, hbehind⟩ := htokens
  obtain ⟨rfl, rfl⟩ := hmore rest rest' hrest hrest' hbehind
  exact ⟨rfl, rfl⟩

theorem Parted.node (category : Category) (h : Parted Ends parts parts') :
    Parted Ends [.node category parts] [.node category parts'] := by
  intro rest rest' hrest hrest' htokens
  simp only [List.flatMap_cons, List.flatMap_nil, List.append_nil,
    Derivation.tokens_node] at htokens
  obtain ⟨rfl, rfl⟩ := h rest rest' hrest hrest' htokens
  exact ⟨rfl, rfl⟩

theorem Parted.symm (h : Parted Ends parts parts') : Parted Ends parts' parts := by
  intro rest rest' hrest hrest' htokens
  obtain ⟨hparts, hrests⟩ := h rest' rest hrest' hrest htokens.symm
  exact ⟨hparts.symm, hrests.symm⟩

/-- Rows that start with tokens of different kinds. -/
theorem Parted.of_heads (token token' : Token)
    (hparts : (parts.flatMap Derivation.tokens).head? = some token)
    (hparts' : (parts'.flatMap Derivation.tokens).head? = some token')
    (hkind : token.kind ≠ token'.kind) : Parted Ends parts parts' := by
  intro rest rest' _ _ htokens
  have hhead := congrArg List.head? htokens
  rw [List.head?_append, List.head?_append, hparts, hparts'] at hhead
  have hsame : token = token' := by simpa using hhead
  exact absurd (congrArg Token.kind hsame) hkind

/-- A row that ends where another one goes on: this is no place to end. -/
theorem Parted.of_longer (h : Parted Inner parts parts')
    (hends : ∀ rest, Ends rest → Inner rest)
    (hinner : ∀ rest, Inner (more.flatMap Derivation.tokens ++ rest))
    (hlonger : ∀ rest, ¬ Ends (more.flatMap Derivation.tokens ++ rest)) :
    Parted Ends parts (parts' ++ more) := by
  intro rest rest' hrest _ htokens
  rw [List.flatMap_append, List.append_assoc] at htokens
  obtain ⟨_, hbehind⟩ := h _ _ (hends rest hrest) (hinner rest') htokens
  rw [hbehind] at hrest
  exact absurd hrest (hlonger rest')

/-- Rows that derive what two other rows derive, which are parted and not the same. -/
theorem Parted.of_ne {row row' : List Derivation} (h : Parted Ends row row')
    (hne : row ≠ row')
    (hparts : parts.flatMap Derivation.tokens = row.flatMap Derivation.tokens)
    (hparts' : parts'.flatMap Derivation.tokens = row'.flatMap Derivation.tokens) :
    Parted Ends parts parts' := by
  intro rest rest' hrest hrest' htokens
  rw [hparts, hparts'] at htokens
  exact absurd (h rest rest' hrest hrest' htokens).1 hne

/-- Whether parts stand where the items of a repetition can end, but not the repetition
itself. -/
def Continues (Ends Inner : List Token → Prop) (parts : List Derivation) : Prop :=
  ∀ rest, Inner (parts.flatMap Derivation.tokens ++ rest) ∧
    ¬ Ends (parts.flatMap Derivation.tokens ++ rest)

section Repetition

variable {Part : Type} {partsOf : Part → List Derivation} {items items' : List Part}

theorem ends_of_continues (hends : ∀ rest, Ends rest → Inner rest)
    (hitems : ∀ item ∈ items, Continues Ends Inner (partsOf item)) {rest : List Token}
    (hrest : Ends rest) :
    Inner ((items.flatMap partsOf).flatMap Derivation.tokens ++ rest) := by
  cases items with
  | nil => exact hends rest hrest
  | cons item items =>
      rw [List.flatMap_cons, List.flatMap_append, List.append_assoc]
      exact (hitems item (by simp) _).1

/-- No repetition ends where another item stands. -/
theorem Parted.nil_of_continues {item : Part}
    (hitem : Continues Ends Inner (partsOf item)) :
    Parted Ends [] ((item :: items).flatMap partsOf) := by
  intro rest rest' hrest _ htokens
  rw [List.flatMap_nil, List.nil_append, List.flatMap_cons, List.flatMap_append,
    List.append_assoc] at htokens
  rw [htokens] at hrest
  exact absurd hrest (hitem _).2

/-- A repetition is parted if its items are, and if no item can stand where the
repetition ends. -/
theorem Parted.flatMap (hends : ∀ rest, Ends rest → Inner rest)
    (hitems : ∀ item ∈ items, Continues Ends Inner (partsOf item))
    (hitems' : ∀ item ∈ items', Continues Ends Inner (partsOf item))
    (hparted : ∀ item ∈ items, ∀ item' ∈ items',
      Parted Inner (partsOf item) (partsOf item')) :
    Parted Ends (items.flatMap partsOf) (items'.flatMap partsOf) := by
  induction items generalizing items' with
  | nil =>
      cases items' with
      | nil => exact Parted.nil
      | cons item' items' => exact Parted.nil_of_continues (hitems' item' (by simp))
  | cons item items ih =>
      cases items' with
      | nil => exact (Parted.nil_of_continues (hitems item (by simp))).symm
      | cons item' items' =>
          have hbehind : ∀ other ∈ items, Continues Ends Inner (partsOf other) :=
            fun other hother => hitems other (by simp [hother])
          have hbehind' : ∀ other ∈ items', Continues Ends Inner (partsOf other) :=
            fun other hother => hitems' other (by simp [hother])
          have hmore := ih hbehind hbehind' fun other hother other' hother' =>
            hparted other (by simp [hother]) other' (by simp [hother'])
          exact Parted.append (hparted item (by simp) item' (by simp)) hmore
            (fun _ => ends_of_continues hends hbehind)
            fun _ => ends_of_continues hends hbehind'

end Repetition

end Parted

/-- Two lists of items between parentheses that derive the beginning of the same tokens
are the same list. -/
theorem Parted.listing {α : Type} {Ends Inner : List Token → Prop}
    {listing listing' : Listing α} {closing closing' : Token}
    (hlist : EndsInList Inner)
    (hseparated : listing.Separated) (hseparated' : listing'.Separated)
    (hheads : ∀ member ∈ listing.members, ∃ token tokens,
      member.1.tokens = token :: tokens ∧ token.kind ≠ .punct .rightParen)
    (hheads' : ∀ member ∈ listing'.members, ∃ token tokens,
      member.1.tokens = token :: tokens ∧ token.kind ≠ .punct .rightParen)
    (hparted : ∀ member ∈ listing.members, ∀ member' ∈ listing'.members,
      Parted Inner [member.1] [member'.1])
    (hclosing : closing.kind = .punct .rightParen)
    (hclosing' : closing'.kind = .punct .rightParen)
    {more more' : List Derivation} (hmore : Parted Ends more more') :
    Parted Ends (listing.parts ++ .leaf closing :: more)
      (listing'.parts ++ .leaf closing' :: more') := by
  have hfirst : ∀ {part : Derivation} {value : α} {others : List (Member α)}
      {right right' : Token} {behind behind' : List Derivation},
      (∃ token tokens, part.tokens = token :: tokens ∧
        token.kind ≠ .punct .rightParen) → right'.kind = .punct .rightParen →
      Parted Ends ((Listing.items part value others).parts ++ .leaf right :: behind)
        (.leaf right' :: behind') := by
    rintro part value others right right' behind behind'
      ⟨token, tokens, htokens, hkind⟩ hright'
    exact Parted.of_heads token right' (by simp [Listing.parts, htokens]) (by simp)
      (by rw [hright']; exact hkind)
  cases listing with
  | empty =>
      cases listing' with
      | empty => exact Parted.leaf _ _ hmore
      | items part' value' others' =>
          exact (hfirst (hheads' (part', value') (by simp [Listing.members]))
            hclosing).symm
  | items part value others =>
      cases listing' with
      | empty =>
          exact hfirst (hheads (part, value) (by simp [Listing.members])) hclosing'
      | items part' value' others' =>
          let Closes (rest : List Token) : Prop :=
            (nextToken rest).kind = .punct .rightParen
          have hcloses : ∀ rest, Closes rest → Inner rest := by
            intro rest hrest
            obtain ⟨token, tokens, rfl, htoken⟩ :=
              eq_cons_of_nextToken hrest (by simp)
            exact hlist.closing token tokens htoken
          have hcontinues : ∀ {others : List (Member α)},
              (∀ other ∈ others, other.comma.kind = .punct .comma) →
              ∀ other ∈ others, Continues Closes Inner
                [.leaf other.comma, other.part] := by
            intro others hcommas other hother rest
            refine ⟨hlist.comma _ _ (hcommas other hother), ?_⟩
            intro hclose
            exact absurd ((hcommas other hother).symm.trans hclose) (by simp)
          have hothers : Parted Closes
              (others.flatMap fun other => [.leaf other.comma, other.part])
              (others'.flatMap fun other => [.leaf other.comma, other.part]) := by
            refine Parted.flatMap hcloses (hcontinues hseparated)
              (hcontinues hseparated') ?_
            intro other hother other' hother'
            refine Parted.leaf _ _ (hparted (other.part, other.value) ?_
              (other'.part, other'.value) ?_)
            · exact List.mem_cons_of_mem _ (List.mem_map_of_mem hother)
            · exact List.mem_cons_of_mem _ (List.mem_map_of_mem hother')
          have hrest : Parted Ends
              ((others.flatMap fun other => [.leaf other.comma, other.part])
                ++ .leaf closing :: more)
              ((others'.flatMap fun other => [.leaf other.comma, other.part])
                ++ .leaf closing' :: more') :=
            Parted.append hothers (Parted.leaf _ _ hmore) (fun _ _ => hclosing)
              fun _ _ => hclosing'
          have hinner : ∀ {others : List (Member α)} {right : Token}
              {behind : List Derivation},
              (∀ other ∈ others, other.comma.kind = .punct .comma) →
              right.kind = .punct .rightParen → ∀ rest, Ends rest →
              Inner (((others.flatMap fun other => [.leaf other.comma, other.part])
                ++ .leaf right :: behind).flatMap Derivation.tokens ++ rest) := by
            intro others right behind hcommas hright rest _
            rw [List.flatMap_append, List.append_assoc]
            exact ends_of_continues hcloses (hcontinues hcommas) hright
          exact Parted.cons (hparted (part, value) (by simp [Listing.members])
            (part', value') (by simp [Listing.members])) hrest
            (hinner hseparated hclosing) (hinner hseparated' hclosing')

end MiniLang
