import Narrative.Proofs.Reader.Once

namespace Narrative

-- A question to a gate, what gates remembered when it was asked, and the answer
structure Question (α κ σ : Type) where
  gate : α
  context : κ
  node : NodeId
  memory : σ
  answer : Bool

namespace Host

variable {α κ σ : Type}

-- The same gates, with every question written down
def noting (host : Host α κ σ) : Host α κ (σ × List (Question α κ σ)) where
  render := host.render
  isGate := host.isGate
  test gate context node s :=
    let (answer, memory) := host.test gate context node s.1
    (answer, memory, s.2 ++ [⟨gate, context, node, s.1, answer⟩])

-- What gates remember when those have been asked, one after the other
def remember (host : Host α κ σ) (context : κ) (node : NodeId) (gates : List α) (s : σ) : σ :=
  gates.foldl (fun now gate => (host.test gate context node now).2) s

-- Questions to gates, one to each of them in their order. Each finds what the ones before it
-- have left.
structure Consults (host : Host α κ σ) (context : κ) (node : NodeId) (s : σ) (gates : List α)
    (questions : List (Question α κ σ)) : Prop where
  gates_eq : questions.map (·.gate) = gates
  each : ∀ i question, questions[i]? = some question →
    question.context = context ∧ question.node = node ∧
      question.memory = host.remember context node (gates.take i) s ∧
      question.answer = (host.test question.gate context node question.memory).1

variable {host : Host α κ σ} {context : κ} {node : NodeId} {s : σ} {gates : List α}
  {questions : List (Question α κ σ)}

theorem remember_append (host : Host α κ σ) (context : κ) (node : NodeId) (gates : List α) (gate : α) (s : σ) :
    host.remember context node (gates ++ [gate]) s =
      (host.test gate context node (host.remember context node gates s)).2 := by
  rw [remember, List.foldl_append]
  rfl

theorem Consults.length_eq (h : host.Consults context node s gates questions) :
    questions.length = gates.length := by
  rw [← h.gates_eq, List.length_map]

-- One more question, to one more gate
theorem Consults.append (h : host.Consults context node s gates questions) (gate : α) :
    host.Consults context node s (gates ++ [gate])
      (questions ++ [⟨gate, context, node, host.remember context node gates s,
        (host.test gate context node (host.remember context node gates s)).1⟩]) where
  gates_eq := by rw [List.map_append, h.gates_eq, List.map_singleton]
  each := by
    intro i question hquestion
    rcases Nat.lt_or_ge i questions.length with hlt | hge
    · rw [List.getElem?_append_left hlt] at hquestion
      rw [List.take_append_of_le_length (h.length_eq ▸ hlt.le)]
      exact h.each i question hquestion
    · rw [List.getElem?_append_right hge, List.getElem?_singleton] at hquestion
      split at hquestion
      · next hlast =>
        obtain rfl := Option.some.inj hquestion
        have hall : (gates ++ [gate]).take i = gates := List.take_left' (by rw [← h.length_eq]; omega)
        rw [hall]
        exact ⟨rfl, rfl, rfl, rfl⟩
      · cases hquestion

end Host

-- All gates of a template are asked, whatever they answer, and it passes when they all agree.
theorem Template.exists_consults {α κ σ : Type} (host : Host α κ σ) (t : Template α) (context : κ)
    (node : NodeId) (s : σ) :
    ∃ questions, host.Consults context node s (t.args.filter host.isGate) questions ∧
      t.testGates host.noting context node (s, []) =
        (questions.all (·.answer), host.remember context node (t.args.filter host.isGate) s, questions) := by
  apply t.testGates_induction host.noting context node (s, [])
    (P := fun asked o => ∃ questions, host.Consults context node s asked questions ∧
      o = (questions.all (·.answer), host.remember context node asked s, questions))
  · exact ⟨[], ⟨rfl, by simp⟩, rfl⟩
  · rintro asked passed ⟨now, noted⟩ gate ⟨questions, hconsults, he⟩
    simp only [Prod.mk.injEq] at he
    obtain ⟨rfl, rfl, rfl⟩ := he
    refine ⟨_, hconsults.append gate, ?_⟩
    rw [Host.remember_append, List.all_append, List.all_cons, List.all_nil, Bool.and_true]
    rfl

-- Writing the questions down changes nothing.
theorem Template.testGates_noting {α κ σ : Type} (host : Host α κ σ) (t : Template α) (context : κ)
    (node : NodeId) (s : σ) :
    t.testGates host context node s =
      ((t.testGates host.noting context node (s, [])).1, (t.testGates host.noting context node (s, [])).2.1) := by
  apply t.testGates_induction host.noting context node (s, [])
    (P := fun asked o => asked.foldl (fun p gate => (p.1 && (host.test gate context node p.2).1,
      (host.test gate context node p.2).2)) (true, s) = (o.1, o.2.1)) rfl
  intro asked passed now gate hasked
  rw [List.foldl_append, hasked]
  rfl

-- What happens to once gates: one is tested for a node, or it forgets all nodes.
inductive Seen.Use where
  | test (id : Nat) (node : NodeId)
  | clear (id : Nat)

namespace Seen

def use (seen : Seen) : Use → Seen
  | .test id node => (seen.visit id node).2
  | .clear id => seen.forget id

-- The gate was tested for the node and has not been cleared since.
def Use.Since (uses : List Use) (id : Nat) (node : NodeId) : Prop :=
  ∃ before after, uses = before ++ .test id node :: after ∧ .clear id ∉ after

theorem mem_visit_iff {seen : Seen} {id other : Nat} {node n : NodeId} :
    (other, n) ∈ (seen.visit id node).2 ↔ (other, n) ∈ seen ∨ other = id ∧ n = node := by
  unfold visit
  split
  · next hmem =>
    refine ⟨.inl, ?_⟩
    rintro (hseen | ⟨rfl, rfl⟩)
    · exact hseen
    · exact hmem
  · rw [List.mem_cons, Prod.mk.injEq, or_comm]

theorem mem_forget_iff {seen : Seen} {id other : Nat} {n : NodeId} :
    (other, n) ∈ seen.forget id ↔ (other, n) ∈ seen ∧ other ≠ id := by
  simp [forget]

theorem visit_fst_iff {seen : Seen} {id : Nat} {node : NodeId} :
    (seen.visit id node).1 = true ↔ (id, node) ∉ seen := by
  unfold visit
  split
  · next hmem => simp [hmem]
  · next hmem => simp [hmem]

theorem Use.since_append_iff {uses : List Use} {u : Use} {id : Nat} {node : NodeId} :
    Since (uses ++ [u]) id node ↔ u = .test id node ∨ Since uses id node ∧ u ≠ .clear id := by
  constructor
  · rintro ⟨before, after, he, hclear⟩
    rcases List.eq_nil_or_concat' after with rfl | ⟨rest, last, rfl⟩
    · exact .inl (List.append_singleton_inj.1 he).2
    · rw [← List.cons_append, ← List.append_assoc] at he
      obtain ⟨rfl, rfl⟩ := List.append_singleton_inj.1 he
      rw [List.mem_append, List.mem_singleton, not_or] at hclear
      exact .inr ⟨⟨before, rest, rfl, hclear.1⟩, Ne.symm hclear.2⟩
  · rintro (rfl | ⟨⟨before, after, rfl, hclear⟩, hne⟩)
    · exact ⟨uses, [], rfl, List.not_mem_nil⟩
    · refine ⟨before, after ++ [u], by simp, ?_⟩
      rw [List.mem_append, List.mem_singleton, not_or]
      exact ⟨hclear, Ne.symm hne⟩

-- What once gates remember is what they were tested for and have not forgotten.
theorem mem_foldl_use_iff {uses : List Use} {id : Nat} {node : NodeId} :
    (id, node) ∈ uses.foldl use [] ↔ Use.Since uses id node := by
  induction uses using List.reverseRecOn with
  | nil => simp [Use.Since]
  | append_singleton uses u ih =>
      rw [List.foldl_append, List.foldl_cons, List.foldl_nil, Use.since_append_iff, ← ih]
      cases u with
      | test other n =>
          rw [use, mem_visit_iff]
          simp only [Use.test.injEq, ne_eq, reduceCtorEq, not_false_eq_true, and_true]
          rw [or_comm, eq_comm, @eq_comm _ node]
      | clear other =>
          rw [use, mem_forget_iff]
          simp [eq_comm]

end Seen

theorem Object.test_of_isOnce {κ ω σ : Type} (custom : Host ω κ σ) {o : Object κ ω} (h : o.isOnce = true)
    (context : κ) (node : NodeId) (s : Seen × σ) :
    o.test custom context node s = ((s.1.visit o.id node).1, (s.1.visit o.id node).2, s.2) := by
  unfold isOnce at h
  split at h
  · next hcontent =>
    rw [test, hcontent]
  · cases h

-- Once gates agree when none of them is asked twice and none has seen the node. In any case
-- they all have seen it then.
theorem Template.testGates_of_once {κ ω σ : Type} (custom : Host ω κ σ) (t : Template (Object κ ω))
    (context : κ) (node : NodeId) (s : Seen × σ)
    (honce : ∀ gate ∈ t.args.filter (Object.isGate custom), gate.isOnce = true) :
    let ids := (t.args.filter (Object.isGate custom)).map (·.id)
    let tested := t.testGates (Object.host custom) context node s
    (tested.1 = true ↔ ids.Nodup ∧ ∀ id ∈ ids, (id, node) ∉ s.1) ∧
    (∀ id other, (id, other) ∈ tested.2.1 ↔ (id, other) ∈ s.1 ∨ id ∈ ids ∧ other = node) ∧
    tested.2.2 = s.2 := by
  refine t.testGates_induction (Object.host custom) context node s
    (P := fun asked o => (∀ gate ∈ asked, gate.isOnce = true) →
      (o.1 = true ↔ (asked.map (·.id)).Nodup ∧ ∀ id ∈ asked.map (·.id), (id, node) ∉ s.1) ∧
      (∀ id other, (id, other) ∈ o.2.1 ↔ (id, other) ∈ s.1 ∨ id ∈ asked.map (·.id) ∧ other = node) ∧
      o.2.2 = s.2) ?_ ?_ honce
  · exact fun _ => ⟨by simp, by simp, rfl⟩
  · intro asked passed now gate hasked honce
    rw [List.forall_mem_append, List.forall_mem_singleton] at honce
    obtain ⟨hpassed, hseen, hown⟩ := hasked honce.1
    have htest := gate.test_of_isOnce custom honce.2 context node now
    have hvisit : (Object.host custom).test gate context node now =
        ((now.1.visit gate.id node).1, (now.1.visit gate.id node).2, now.2) := htest
    simp only [hvisit, List.map_append, List.map_singleton]
    refine ⟨?_, ?_, hown⟩
    · rw [Bool.and_eq_true, hpassed, Seen.visit_fst_iff, hseen]
      have hnew : (∀ other ∈ asked.map (·.id), other ≠ gate.id) ↔ gate.id ∉ asked.map (·.id) :=
        List.forall_mem_ne'
      simp only [List.nodup_append, List.nodup_singleton, List.forall_mem_append,
        List.forall_mem_singleton, not_or, and_true, true_and, hnew]
      tauto
    · intro id other
      rw [Seen.mem_visit_iff, hseen, List.mem_append, List.mem_singleton, or_assoc, ← or_and_right]

-- Every gate of a template is asked once, in the order of the arguments, with the context and
-- the node and in the state that the gates before it have left. Which gates are asked does not
-- hang on what they answer. If they are all once gates, they agree when none of them stands
-- there twice and none has seen the node since it was cleared, and from then on they have seen
-- it.
theorem Template.testGates_consults_every_gate {κ ω σ : Type} (custom : Host ω κ σ)
    (t : Template (Object κ ω)) (context : κ) (node : NodeId) (s : Seen × σ) :
    let host := Object.host custom
    let gates := t.args.filter host.isGate
    let ids := gates.map (·.id)
    let tested := t.testGates host context node s
    (∃ questions, host.Consults context node s gates questions ∧
      t.testGates host.noting context node (s, []) = (tested.1, tested.2, questions) ∧
      tested = (questions.all (·.answer), host.remember context node gates s)) ∧
    ((∀ gate ∈ gates, gate.isOnce = true) →
      (tested.1 = true ↔ ids.Nodup ∧ ∀ id ∈ ids, (id, node) ∉ s.1) ∧
      ∀ id other, (id, other) ∈ tested.2.1 ↔ (id, other) ∈ s.1 ∨ id ∈ ids ∧ other = node) ∧
    ∀ uses, s.1 = uses.foldl Seen.use [] →
      ∀ id other, (id, other) ∈ s.1 ↔ Seen.Use.Since uses id other := by
  intro host gates ids tested
  refine ⟨?_, ?_, ?_⟩
  · obtain ⟨questions, hconsults, hnoted⟩ := t.exists_consults host context node s
    have htested : tested = (questions.all (·.answer), host.remember context node gates s) := by
      rw [show tested = t.testGates host context node s from rfl, t.testGates_noting, hnoted]
    refine ⟨questions, hconsults, ?_, htested⟩
    rw [hnoted, htested]
  · intro honce
    obtain ⟨hpassed, hseen, -⟩ := t.testGates_of_once custom context node s honce
    exact ⟨hpassed, hseen⟩
  · rintro uses huses id other
    rw [huses]
    exact Seen.mem_foldl_use_iff

-- One once gate stands there twice and refuses the second time, although it has been cleared.
-- The other has seen another node only.
theorem Template.testGates_consults_every_gate_twice :
    let custom : Host Unit Unit Unit := ⟨fun _ _ => .ok [], fun _ => false, fun _ _ _ s => (true, s)⟩
    let t : Template (Object Unit Unit) :=
      ⟨[], [⟨0, .once⟩, ⟨5, .value (.bool true)⟩, ⟨1, .once⟩, ⟨0, .once⟩], []⟩
    let uses : List Seen.Use := [.test 0 3, .clear 0, .test 1 4]
    let tested := t.testGates (Object.host custom) () 3 (uses.foldl Seen.use [], ())
    (∀ gate ∈ t.args.filter (Object.isGate custom), gate.isOnce = true) ∧
      ¬ Seen.Use.Since uses 0 3 ∧ tested.1 = false ∧ (0, 3) ∈ tested.2.1 ∧ (1, 3) ∈ tested.2.1 := by
  intro custom t uses tested
  have honce : ∀ gate ∈ t.args.filter (Object.isGate custom), gate.isOnce = true := by decide
  obtain ⟨-, hall, hsince⟩ :=
    testGates_consults_every_gate custom t () 3 (uses.foldl Seen.use [], ())
  obtain ⟨hpassed, hseen⟩ := hall honce
  refine ⟨honce, fun h => ?_, ?_, (hseen 0 3).2 ?_, (hseen 1 3).2 ?_⟩
  · exact absurd ((hsince uses rfl 0 3).2 h) (by decide)
  · rw [← Bool.not_eq_true, hpassed]
    decide
  · exact .inr ⟨by decide, rfl⟩
  · exact .inr ⟨by decide, rfl⟩

end Narrative
