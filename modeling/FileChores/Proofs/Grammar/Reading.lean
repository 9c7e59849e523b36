import FileChores.Proofs.Grammar.Blocked

/-!
# What the parser reads

`Reading` is what every step of the parser has to come to on its input: the only derivation of its
phrase, with the tree that is given back, or the place where no phrase can go on. The combinators
follow the rules of the grammar: one phrase behind another, and a phrase behind the lexeme that
selects it.
-/

namespace FileChores.Grammar

/-- The only derivation at the front of `input`, with its tree and what is left, or the place where
reading is blocked. -/
def Reading {D α : Type} (yield : D → List Lexeme) (tree : D → α) (ends : Option Token → Prop)
    (input : List Lexeme) : Except Stuck (α × List Lexeme) → Prop
  | .ok (value, rest) =>
      ∃ d, tree d = value ∧ yield d ++ rest = input ∧ Only yield ends d rest
  | .error stuck => ∃ read, read ++ stuck.rest = input ∧ Blocked yield ends read stuck

namespace Reading

variable {A B D α β γ : Type} {input : List Lexeme}
variable {yieldA : A → List Lexeme} {yield : D → List Lexeme} {treeA : A → α} {tree : D → γ}
variable {endsA ends : Option Token → Prop}

theorem eq_ok {d : D} {rest : List Lexeme} {result : Except Stuck (γ × List Lexeme)}
    (h : Reading yield tree ends (yield d ++ rest) result) (hends : ends (next rest)) :
    result = .ok (tree d, rest) := by
  cases result with
  | error stuck =>
      obtain ⟨read, hread, hblocked⟩ := h
      exact absurd hread.symm (hblocked.dead stuck.rest (SeenAgain.refl stuck) d rest hends)
  | ok parsed =>
      obtain ⟨d', htree, heq, honly⟩ := h
      obtain ⟨rfl, hrest⟩ := honly parsed.2 rfl d rest hends heq.symm
      rw [htree, hrest]

theorem seq {ra : Except Stuck (α × List Lexeme)} (hfirst : Reading yieldA treeA endsA input ra)
    (yieldB : B → List Lexeme) (treeB : α → B → β)
    (rb : α → List Lexeme → Except Stuck (β × List Lexeme))
    (hsecond : ∀ value rest, ra = .ok (value, rest) →
      Reading yieldB (treeB value) ends rest (rb value rest))
    (hfollow : ∀ b rest, ends (next rest) → endsA (next (yieldB b ++ rest)))
    (hfill : ∃ b, ∀ x ∈ yieldB b, Filler x) :
    Reading (fun d : A × B => yieldA d.1 ++ yieldB d.2) (fun d => treeB (treeA d.1) d.2) ends input
      (ra >>= fun parsed => rb parsed.1 parsed.2) := by
  cases ra with
  | error stuck =>
      obtain ⟨read, hread, hblocked⟩ := hfirst
      exact ⟨read, hread, hblocked.fst hfill hfollow⟩
  | ok parsed =>
      obtain ⟨value, rest⟩ := parsed
      obtain ⟨a, rfl, rfl, honly⟩ := hfirst
      have hread := hsecond _ rest rfl
      change Reading _ _ ends _ (rb (treeA a) rest)
      cases hb : rb (treeA a) rest with
      | error stuck =>
          rw [hb] at hread
          obtain ⟨read, rfl, hblocked⟩ := hread
          exact ⟨yieldA a ++ read, List.append_assoc .., hblocked.snd honly hfollow⟩
      | ok parsed' =>
          obtain ⟨value', rest'⟩ := parsed'
          rw [hb] at hread
          obtain ⟨b, rfl, rfl, honly'⟩ := hread
          refine ⟨(a, b), rfl, List.append_assoc .., ?_⟩
          intro after hafter d s hs heq
          rw [List.append_assoc, List.append_assoc] at heq
          obtain ⟨ha, hrest⟩ := honly _ (head?_append_congr hafter _) d.1 _ (hfollow d.2 s hs) heq
          obtain ⟨hb', rfl⟩ := honly' after hafter d.2 s hs hrest
          exact ⟨Prod.ext ha hb', rfl⟩

theorem of_rule {ra : Except Stuck (α × List Lexeme)} (h : Reading yieldA treeA endsA input ra)
    (build : A → D) (value : α → γ) (hyield : ∀ a, yield (build a) = yieldA a)
    (htree : ∀ a, tree (build a) = value (treeA a))
    (hrule : ∀ d rest, ends (next rest) → (yield d ++ rest).head? = input.head? →
      (∃ a, build a = d) ∧ endsA (next rest)) :
    Reading yield tree ends input (ra.map fun parsed => (value parsed.1, parsed.2)) := by
  cases ra with
  | error stuck =>
      obtain ⟨read, rfl, hblocked⟩ := h
      exact ⟨read, rfl, hblocked.of_rule build hyield hrule⟩
  | ok parsed =>
      obtain ⟨value', rest⟩ := parsed
      obtain ⟨a, rfl, rfl, honly⟩ := h
      refine ⟨build a, htree a, by rw [hyield], ?_⟩
      intro after hafter d s hs heq
      have hhead : (yield d ++ s).head? = (yieldA a ++ rest).head? := by
        rw [heq, hyield, head?_append_congr hafter]
      obtain ⟨⟨a', rfl⟩, hs'⟩ := hrule d s hs hhead
      rw [hyield, hyield] at heq
      obtain ⟨rfl, rfl⟩ := honly after hafter a' s hs' heq
      exact ⟨rfl, rfl⟩

theorem map {ra : Except Stuck (α × List Lexeme)} (h : Reading yieldA treeA ends input ra)
    (value : α → γ) :
    Reading yieldA (fun a => value (treeA a)) ends input
      (ra.map fun parsed => (value parsed.1, parsed.2)) :=
  h.of_rule id value (fun _ => rfl) (fun _ => rfl) fun a _ hends _ => ⟨⟨a, rfl⟩, hends⟩

theorem cons {ra : Except Stuck (α × List Lexeme)} (h : Reading yieldA treeA endsA input ra)
    (x : Lexeme) (build : A → D) (value : α → γ) (hyield : ∀ a, yield (build a) = x :: yieldA a)
    (htree : ∀ a, tree (build a) = value (treeA a))
    (hrule : ∀ d rest after, ends (next rest) → after.head? = input.head? →
      yield d ++ rest = x :: after → (∃ a, build a = d) ∧ endsA (next rest)) :
    Reading yield tree ends (x :: input) (ra.map fun parsed => (value parsed.1, parsed.2)) := by
  cases ra with
  | error stuck =>
      obtain ⟨read, rfl, hblocked⟩ := h
      exact ⟨x :: read, rfl, hblocked.cons x build hyield hrule⟩
  | ok parsed =>
      obtain ⟨value', rest⟩ := parsed
      obtain ⟨a, rfl, rfl, honly⟩ := h
      refine ⟨build a, htree a, by rw [hyield, List.cons_append], ?_⟩
      intro after hafter d s hs heq
      rw [hyield, List.cons_append] at heq
      obtain ⟨⟨a', rfl⟩, hs'⟩ := hrule d s _ hs (head?_append_congr hafter _) heq
      rw [hyield, List.cons_append] at heq
      obtain ⟨rfl, rfl⟩ := honly after hafter a' s hs' (List.cons.inj heq).2
      exact ⟨rfl, rfl⟩

theorem single {x : Lexeme} {rest : List Lexeme} {value : γ} (d : D) (hyield : yield d = [x])
    (htree : tree d = value)
    (hrule : ∀ d' rest' after, ends (next rest') → yield d' ++ rest' = x :: after → d' = d) :
    Reading yield tree ends (x :: rest) (.ok (value, rest)) := by
  refine ⟨d, htree, by rw [hyield]; rfl, ?_⟩
  intro after _ d' rest' hrest' heq
  rw [hyield] at heq
  obtain rfl := hrule d' rest' after hrest' heq
  rw [hyield] at heq
  exact ⟨rfl, (List.cons.inj heq).2⟩

theorem blocked {problem : ParseProblem} (hviable : ∃ d, ∀ x ∈ yield d, Filler x)
    (hknown : problem.lookahead = 1)
    (hdead : ∀ d rest, ends (next rest) → (yield d ++ rest).head? ≠ input.head?) :
    Reading yield tree ends input (.error ⟨problem, input⟩) :=
  ⟨[], rfl, Blocked.here hviable hknown hdead⟩

end Reading

end FileChores.Grammar
