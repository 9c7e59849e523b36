import FileChores.FileSystem.Scripted
import FileChores.Proofs.Grammar.Descent.Expr
import FileChores.Proofs.Run.Calling

/-!
# The value of a chain of operators

An expression is a chain: a first operand and links behind it, each an operator and its right
operand. The operands are evaluated from left to right, and the operators are applied on the way.
Up to the first text the chain is a sum of numbers, from there on a text that grows; subtracting
where a text has come in is the only fault of a chain, and stops it at that place.
-/

namespace FileChores

structure Link where
  op : Operator
  pos : Position
  operand : Expr

/-- The links hung on the first operand from left to right. -/
def Expr.chain (first : Expr) (links : List Link) : Expr :=
  links.foldl (fun left link => .binary link.op left link.operand link.pos) first

namespace Grammar

def Chain.links : Chain → List Link
  | .done => []
  | .link op pos next more => ⟨op, pos, next.tree⟩ :: more.links

theorem Chain.tree_eq_chain (left : FileChores.Expr) :
    (chain : Chain) → chain.tree left = left.chain chain.links
  | .done => rfl
  | .link op pos next more => more.tree_eq_chain (.binary op left next.tree pos)

end Grammar

/-! ## Chains of values -/

namespace Operator

def value? : Operator → Value → Value → Option Value
  | add, left, right => some (left.add right)
  | sub, left, right => left.sub? right

def onNumbers : Operator → Float → Float → Float
  | add, x, y => x + y
  | sub, x, y => x - y

theorem value?_numbers (op : Operator) (x y : Float) :
    op.value? (.number x) (.number y) = some (.number (op.onNumbers x y)) := by
  cases op <;> rfl

end Operator

def total (x : Float) (steps : List (Operator × Float)) : Float :=
  steps.foldl (fun sum step => step.1.onNumbers sum step.2) x

/-- What the numbers in front of a text contribute to it. -/
def leading (ops : List Operator) : List Float → String
  | [] => ""
  | x :: xs => Number.text (total x (ops.zip xs))

/-- The operator at the index subtracts, and a text stands in front of it or right behind it. -/
def Misused (ops : List Operator) (values : List Value) (i : Nat) : Prop :=
  ops[i]? = some .sub ∧ ∃ content, .text content ∈ values.take (i + 2)

namespace Misused

variable {ops : List Operator} {values : List Value} {i j : Nat}

theorem append (h : Misused ops values j) (more : List Value) : Misused ops (values ++ more) j := by
  obtain ⟨hsub, content, hcontent⟩ := h
  refine ⟨hsub, content, ?_⟩
  rw [List.take_append]
  exact List.mem_append_left _ hcontent

theorem lt_of_take (h : Misused (ops.take i) values j) : j < i := by
  obtain ⟨hlt, -⟩ := List.getElem?_eq_some_iff.1 h.1
  rw [List.length_take] at hlt
  omega

theorem of_take (h : Misused (ops.take i) values j) : Misused ops values j := by
  have hsub := h.1
  rw [List.getElem?_take, if_pos h.lt_of_take] at hsub
  exact ⟨hsub, h.2⟩

end Misused

namespace Value

def chain? (left : Value) : List (Operator × Value) → Option Value
  | [] => some left
  | (op, right) :: steps => (op.value? left right).bind (·.chain? steps)

theorem chain?_cons {left right value : Value} {op : Operator}
    (h : op.value? left right = some value) (steps : List (Operator × Value)) :
    left.chain? ((op, right) :: steps) = value.chain? steps := by
  rw [chain?, h, Option.bind_some]

theorem chain?_append {left value : Value} {steps : List (Operator × Value)}
    (h : left.chain? steps = some value) (more : List (Operator × Value)) :
    left.chain? (steps ++ more) = value.chain? more := by
  induction steps generalizing left with
  | nil =>
      cases h
      rfl
  | cons step steps ih =>
      rw [chain?, Option.bind_eq_some_iff] at h
      obtain ⟨next, hnext, hmore⟩ := h
      rw [List.cons_append, chain?_cons hnext, ih hmore]

theorem chain?_numbers (x : Float) (ops : List Operator) (xs : List Float) :
    (number x).chain? (ops.zip (xs.map number)) = some (.number (total x (ops.zip xs))) := by
  induction xs generalizing x ops with
  | nil => simp [chain?, total]
  | cons y xs ih =>
      cases ops with
      | nil => rfl
      | cons op ops =>
          rw [List.map_cons, List.zip_cons_cons, chain?_cons (op.value?_numbers x y), ih]
          rfl

theorem chain?_text (content : String) {ops : List Operator} (hops : ∀ op ∈ ops, op = .add)
    {values : List Value} (hlength : ops.length = values.length) :
    (text content).chain? (ops.zip values) =
      some (.text (content ++ String.join (values.map toText))) := by
  induction values generalizing content ops with
  | nil => simp [chain?]
  | cons value values ih =>
      cases ops with
      | nil => cases hlength
      | cons op ops =>
          obtain ⟨rfl, hmore⟩ := List.forall_mem_cons.1 hops
          have hadd : Operator.add.value? (.text content) value =
              some (.text (content ++ value.toText)) := rfl
          rw [List.zip_cons_cons, chain?_cons hadd, ih _ hmore (by simpa using hlength)]
          simp [String.append_assoc]

theorem numbers_or_text (values : List Value) :
    (∃ numbers : List Float, values = numbers.map number) ∨
      ∃ (numbers : List Float) (content : String) (later : List Value),
        values = numbers.map number ++ .text content :: later := by
  induction values with
  | nil => exact .inl ⟨[], rfl⟩
  | cons value values ih =>
      cases value with
      | text content => exact .inr ⟨[], content, values, rfl⟩
      | number x =>
          obtain ⟨numbers, rfl⟩ | ⟨numbers, content, later, rfl⟩ := ih
          · exact .inl ⟨x :: numbers, rfl⟩
          · exact .inr ⟨x :: numbers, content, later, rfl⟩

theorem eq_add_of_not_misused {ops : List Operator} {front values : List Value} {content : String}
    (h : ∀ i, ¬ Misused ops (front ++ .text content :: values) i) :
    ∀ op ∈ ops.drop (front.length - 1), op = .add := by
  intro op hop
  obtain ⟨i, hi⟩ := List.mem_iff_getElem?.1 hop
  rw [List.getElem?_drop] at hi
  cases op with
  | add => rfl
  | sub =>
      refine absurd ⟨hi, content, ?_⟩ (h _)
      obtain ⟨more, hmore⟩ : ∃ more, front.length - 1 + i + 2 = front.length + (more + 1) :=
        ⟨front.length - 1 + i + 1 - front.length, by omega⟩
      rw [hmore, List.take_length_add_append, List.take_succ_cons]
      exact List.mem_append_right _ (.head _)

theorem chain?_numbers_text (x : Float) {front back : List Operator} {xs : List Float}
    (hfront : front.length = xs.length) (hadd : ∀ op ∈ back, op = .add) (content : String)
    {later : List Value} (hback : back.length = later.length + 1) :
    (number x).chain? ((front ++ back).zip (xs.map number ++ text content :: later)) =
      some (.text (Number.text (total x (front.zip xs)) ++
        String.join ((text content :: later).map toText))) := by
  cases back with
  | nil => cases hback
  | cons op back =>
      obtain ⟨rfl, hmore⟩ := List.forall_mem_cons.1 hadd
      have hfirst : Operator.add.value? (.number (total x (front.zip xs))) (.text content) =
          some (.text (Number.text (total x (front.zip xs)) ++ content)) := rfl
      rw [List.zip_append (by rw [hfront, List.length_map]),
        chain?_append (chain?_numbers x front xs), List.zip_cons_cons, chain?_cons hfirst,
        chain?_text _ hmore (Nat.succ.inj hback)]
      simp [toText, String.append_assoc]

/-- A chain in which nothing is misused comes to a text that begins with what the numbers in front
of the first text come to. -/
theorem chain?_of_text {left : Value} {ops : List Operator} {rights later : List Value}
    {numbers : List Float} {content : String} (hlength : ops.length = rights.length)
    (hvalues : left :: rights = numbers.map number ++ .text content :: later)
    (hused : ∀ i, ¬ Misused ops (left :: rights) i) :
    left.chain? (ops.zip rights) =
      some (.text (leading ops numbers ++ String.join ((text content :: later).map toText))) := by
  rw [hvalues] at hused
  have hadd := eq_add_of_not_misused hused
  cases numbers with
  | nil =>
      cases hvalues
      rw [chain?_text content (by simpa using hadd) hlength]
      simp [leading, toText]
  | cons x xs =>
      rw [List.map_cons, List.cons_append, List.cons.injEq] at hvalues
      obtain ⟨rfl, rfl⟩ := hvalues
      rw [List.length_append, List.length_map, List.length_cons] at hlength
      have hfront : (ops.take xs.length).length = xs.length := by
        rw [List.length_take]
        omega
      have hback : (ops.drop xs.length).length = later.length + 1 := by
        rw [List.length_drop]
        omega
      have hleading : ops.zip xs = (ops.take xs.length).zip xs := by
        calc ops.zip xs = (ops.take xs.length ++ ops.drop xs.length).zip (xs ++ []) := by
              rw [List.take_append_drop, List.append_nil]
          _ = (ops.take xs.length).zip xs ++ (ops.drop xs.length).zip [] := List.zip_append hfront
          _ = (ops.take xs.length).zip xs := by rw [List.zip_nil_right, List.append_nil]
      have hchain := chain?_numbers_text x hfront (by simpa using hadd) content hback
      rw [List.take_append_drop] at hchain
      rw [hchain, leading, hleading]

theorem exists_chain? {left : Value} {ops : List Operator} {rights : List Value}
    (hlength : ops.length = rights.length) (hused : ∀ i, ¬ Misused ops (left :: rights) i) :
    ∃ value, left.chain? (ops.zip rights) = some value ∧
      ((∃ content, .text content ∈ left :: rights) → ∃ content, value = .text content) := by
  obtain ⟨numbers, hvalues⟩ | ⟨numbers, content, later, hvalues⟩ := numbers_or_text (left :: rights)
  · cases numbers with
    | nil => cases hvalues
    | cons x xs =>
        rw [hvalues]
        cases hvalues
        exact ⟨_, chain?_numbers x ops xs, by simp⟩
  · exact ⟨_, chain?_of_text hlength hvalues hused, fun _ => ⟨_, rfl⟩⟩

end Value

/-! ## Chains of expressions -/

namespace Run

variable {σ : Type} {s : Setting σ}

theorem combine_of_value? {op : Operator} {left right value : Value}
    (h : op.value? left right = some value) (pos : Position) :
    (combine op left right pos : Run σ Value) = pure value := by
  cases op with
  | add =>
      cases h
      rfl
  | sub => rw [combine, show left.sub? right = some value from h]

theorem combine_sub {left right : Value} (h : left.sub? right = none) (pos : Position) :
    (combine .sub left right pos : Run σ Value) =
      fault (.textSubtraction left.describe right.describe pos) := by
  rw [combine, h]

theorem exists_of_result_evaluateAll_append {es es' : List Expr} {values : List Value}
    {m m' : Machine σ} (h : result (evaluateAll s (es ++ es')) m = (.ok values, m')) :
    ∃ front back m₁, values = front ++ back ∧ result (evaluateAll s es) m = (.ok front, m₁) ∧
      result (evaluateAll s es') m₁ = (.ok back, m') := by
  induction es generalizing values m with
  | nil => exact ⟨[], values, m, rfl, by rw [evaluateAll]; rfl, h⟩
  | cons e es ih =>
      obtain ⟨value, rest, m₁, rfl, hvalue, hrest⟩ := exists_of_result_evaluateAll_cons h
      obtain ⟨front, back, m₂, rfl, hfront, hback⟩ := ih hrest
      refine ⟨value :: front, back, m₂, rfl, ?_, hback⟩
      rw [evaluateAll, result_bind_ok hvalue, result_bind_ok hfront]
      rfl

theorem result_chain {e : Expr} {left : Value} {m m₁ : Machine σ}
    (hfirst : result (evaluate s e) m = (.ok left, m₁)) {links : List Link} {rights : List Value}
    {m' : Machine σ}
    (hrights : result (evaluateAll s (links.map Link.operand)) m₁ = (.ok rights, m'))
    {value : Value} (hvalue : left.chain? ((links.map Link.op).zip rights) = some value) :
    result (evaluate s (e.chain links)) m = (.ok value, m') := by
  induction links generalizing e left m₁ rights with
  | nil =>
      rw [List.map_nil, evaluateAll] at hrights
      cases hrights
      cases hvalue
      exact hfirst
  | cons link links ih =>
      obtain ⟨right, rest, m₂, rfl, hright, hrest⟩ := exists_of_result_evaluateAll_cons hrights
      rw [List.map_cons, List.zip_cons_cons, Value.chain?, Option.bind_eq_some_iff] at hvalue
      obtain ⟨next, hnext, hvalue⟩ := hvalue
      refine ih (e := .binary link.op e link.operand link.pos) ?_ hrest hvalue
      rw [evaluate, result_bind_ok hfirst, result_bind_ok hright, combine_of_value? hnext]
      rfl

/-- Behind a fault, no operand of a chain is evaluated. -/
theorem result_chain_error {e : Expr} {halt : Halt} {m m' : Machine σ}
    (h : result (evaluate s e) m = (.error halt, m')) (links : List Link) :
    result (evaluate s (e.chain links)) m = (.error halt, m') := by
  induction links generalizing e with
  | nil => exact h
  | cons link links ih =>
      refine ih (e := .binary link.op e link.operand link.pos) ?_
      rw [evaluate, result_bind_error h]

/-- A chain stops at a minus that is misused when nothing in front of it is. -/
theorem result_chain_misused {first : Expr} {front : List Link} {link : Link} {values : List Value}
    {m m' : Machine σ}
    (hvalues : result (evaluateAll s (first :: (front.map Link.operand ++ [link.operand]))) m =
      (.ok values, m'))
    (hused : ∀ j, ¬ Misused (front.map Link.op) values j) (hsub : link.op = .sub)
    (htext : ∃ content, .text content ∈ values) (back : List Link) :
    ∃ left right : Value, result (evaluate s (first.chain (front ++ link :: back))) m =
      (.error (.fault (.textSubtraction left.describe right.describe link.pos)), m') := by
  obtain ⟨value, rest, m₁, rfl, hfirst, hrest⟩ := exists_of_result_evaluateAll_cons hvalues
  obtain ⟨rights, last, m₂, rfl, hrights, hlast⟩ := exists_of_result_evaluateAll_append hrest
  obtain ⟨right, none, m₃, rfl, hright, hnone⟩ := exists_of_result_evaluateAll_cons hlast
  rw [evaluateAll] at hnone
  cases hnone
  have hlength : (front.map Link.op).length = rights.length := by
    simpa using (length_of_evaluateAll hrights).symm
  have hclean : ∀ j, ¬ Misused (front.map Link.op) (value :: rights) j :=
    fun j h => hused j (h.append [right])
  obtain ⟨left, hleft, hgrown⟩ := Value.exists_chain? hlength hclean
  have hnone : left.sub? right = none := by
    obtain ⟨content, hcontent⟩ := htext
    rw [← List.cons_append, List.mem_append, List.mem_singleton] at hcontent
    obtain hcontent | rfl := hcontent
    · obtain ⟨content', rfl⟩ := hgrown ⟨content, hcontent⟩
      rfl
    · cases left <;> rfl
  have hfront := result_chain hfirst hrights hleft
  refine ⟨left, right, ?_⟩
  rw [Expr.chain, List.foldl_append]
  refine result_chain_error (e := .binary link.op (first.chain front) link.operand link.pos) ?_ back
  rw [evaluate, result_bind_ok hfront, result_bind_ok hright, hsub, combine_sub hnone]
  rfl

/-- An expression that is written as operands with operators between them is read as their chain.
Let all operands in question come to values. The first minus that has a text somewhere in front of
it or right behind it is the fault, found when its right operand has been evaluated and nothing
more. Where there is none, numbers are added and subtracted from left to right, and from the first
text on everything is put behind what the numbers in front of it come to. -/
theorem evaluate_chain (s : Setting σ) (m : Machine σ) :
    (∀ (first : Grammar.Primary) (chain : Grammar.Chain) (rest : List Lexeme),
      Grammar.EndsExpr (Grammar.next rest) →
      Grammar.outcome (Expr.parse (first.yield ++ chain.yield ++ rest)) =
        .ok (first.tree.chain chain.links, rest)) ∧
    ∀ (first : Expr) (links : List Link),
      let operands := first :: links.map Link.operand
      let ops := links.map Link.op
      (∀ i link values m', links[i]? = some link →
        result (evaluateAll s (operands.take (i + 2))) m = (.ok values, m') →
        Misused ops values i → (∀ j < i, ¬ Misused ops values j) →
        ∃ left right : Value, result (evaluate s (first.chain links)) m =
          (.error (.fault (.textSubtraction left.describe right.describe link.pos)), m')) ∧
      ∀ values m', result (evaluateAll s operands) m = (.ok values, m') →
        (∀ i, ¬ Misused ops values i) →
        (∀ x xs, values = (x :: xs).map .number →
          result (evaluate s (first.chain links)) m =
            (.ok (.number (total x (ops.zip xs))), m')) ∧
        ∀ numbers content later, values = numbers.map .number ++ .text content :: later →
          result (evaluate s (first.chain links)) m =
            (.ok (.text (leading ops numbers ++
              String.join ((.text content :: later).map Value.toText))), m') := by
  refine ⟨fun first chain rest hends => ?_, fun first links => ⟨?_, ?_⟩⟩
  · have hreads := Grammar.readsExpr ((Grammar.Expr.mk first chain).yield ++ rest)
    rw [← chain.tree_eq_chain]
    exact hreads.eq_ok hends
  · intro i link values m' hlink hvalues hmisused hleast
    obtain ⟨hi, rfl⟩ := List.getElem?_eq_some_iff.1 hlink
    have hback : links = links.take i ++ links[i] :: links.drop (i + 1) := by
      rw [← List.drop_eq_getElem_cons hi, List.take_append_drop]
    have hfront : (links.map Link.operand).take (i + 1) =
        (links.take i).map Link.operand ++ [links[i].operand] := by
      rw [← List.map_take, List.take_succ_eq_append_getElem hi, List.map_append, List.map_singleton]
    rw [List.take_succ_cons, hfront] at hvalues
    obtain ⟨hsub, content, hcontent⟩ := hmisused
    have hop : links[i].op = .sub := by simpa [hi] using hsub
    have htext : .text content ∈ values := List.mem_of_mem_take hcontent
    have hunused : ∀ j, ¬ Misused ((links.take i).map Link.op) values j := by
      intro j h
      rw [List.map_take] at h
      exact hleast j h.lt_of_take h.of_take
    obtain ⟨left, right, hstops⟩ := result_chain_misused hvalues hunused hop ⟨content, htext⟩ _
    rw [← hback] at hstops
    exact ⟨left, right, hstops⟩
  · intro values m' hvalues hused
    obtain ⟨left, rights, m₁, rfl, hleft, hrights⟩ := exists_of_result_evaluateAll_cons hvalues
    have hlength : (links.map Link.op).length = rights.length := by
      simpa using (length_of_evaluateAll hrights).symm
    refine ⟨fun x xs heq => ?_, fun numbers content later heq => ?_⟩
    · cases heq
      exact result_chain hleft hrights (Value.chain?_numbers x _ xs)
    · exact result_chain hleft hrights (Value.chain?_of_text hlength heq hused)

def misusing : List Link :=
  [⟨.add, ⟨1, 5⟩, .word "x" ⟨1, 7⟩⟩, ⟨.sub, ⟨1, 9⟩, .text "b" ⟨1, 11⟩⟩,
    ⟨.add, ⟨1, 15⟩, .query .countFiles [.text "d" ⟨1, 28⟩] ⟨1, 17⟩⟩]

/-- The query behind the minus is not asked. -/
theorem evaluate_chain_stops :
    Misused (misusing.map Link.op) [.text "a", .text "x", .text "b"] 1 ∧
    ∃ left right : Value, result (evaluate (({} : Limits).setting Scripted.fileSystem)
        ((Expr.text "a" ⟨1, 1⟩).chain misusing)) (.fresh (.ofResponses [])) =
      (.error (.fault (.textSubtraction left.describe right.describe ⟨1, 9⟩)),
        .fresh (.ofResponses [])) := by
  have hmisused : Misused (misusing.map Link.op) [.text "a", .text "x", .text "b"] 1 :=
    ⟨rfl, "a", by simp⟩
  refine ⟨hmisused, ?_⟩
  refine ((evaluate_chain _ _).2 (.text "a" ⟨1, 1⟩) misusing).1 1
    ⟨.sub, ⟨1, 9⟩, .text "b" ⟨1, 11⟩⟩ _ _ rfl rfl hmisused ?_
  rintro j hj ⟨hsub, -⟩
  obtain rfl : j = 0 := by omega
  cases hsub

end Run

end FileChores
