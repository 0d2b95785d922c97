import Mathlib.Data.List.Chain
import QuestionSynthesis.Proofs.Corpus.Graph
import QuestionSynthesis.Proofs.Evolution.Attempt

/-!
# The window of an attempt

However the operations on an attempt are mixed, and whatever the store answers, the window keeps
distinct nodes and its root, and the counters only rise (`Moved.coherent`). Over an assembled graph
the window is moreover a path of the graph's own nodes (`Moved.embedded`), so it cannot grow for
ever.
-/

namespace QuestionSynthesis

def Expansion.grows : Expansion → Bool
  | .prev _ | .next _ => true
  | .resampled _ => false

namespace Attempt

inductive Operation where
  | resample
  | expand
  | rejectNode
  | rejectQuestion

def perform (w : Collaborators) (a : Attempt) (t : Trace) : Operation → Attempt
  | .resample => (resample w a t).2.1
  | .expand => (expand w a t).2.1
  | .rejectNode => (rejectNode w a t).2.1
  | .rejectQuestion => (rejectQuestion w a t).2.1

/-- The attempt after operations in a row. Each comes after a history of its own, as others may use
the collaborators in between. -/
def performAll (w : Collaborators) (a : Attempt) (calls : List (Trace × Operation)) : Attempt :=
  calls.foldl (fun b call => b.perform w call.1 call.2) a

def expansions (w : Collaborators) (a : Attempt) : List Trace → List (Outcome Expansion)
  | [] => []
  | t :: ts => (expand w a t).1 :: expansions w (a.perform w t .expand) ts

def expandAll (w : Collaborators) (a : Attempt) (ts : List Trace) : Attempt :=
  a.performAll w (ts.map (·, .expand))

def ids (a : Attempt) : List NodeId := a.window.map Node.id

@[simp] theorem prepend_ids (a : Attempt) (n : Node) : (a.prepend n).ids = n.id :: a.ids := rfl

@[simp] theorem append_ids (a : Attempt) (n : Node) : (a.append n).ids = a.ids ++ [n.id] := by
  simp [ids]

@[simp] theorem restart_ids (a : Attempt) (n : Node) : (a.restart n).ids = [n.id] := rfl

theorem contains_eq_false_iff {a : Attempt} {id : NodeId} :
    a.contains id = false ↔ id ∉ a.ids := by
  simp [contains, ids]

@[simp] theorem expandAll_cons (w : Collaborators) (a : Attempt) (t : Trace) (ts : List Trace) :
    a.expandAll w (t :: ts) = (a.perform w t .expand).expandAll w ts := rfl

variable {w : Collaborators} {store : Store} {a b : Attempt}

inductive Expanded (store : Store) (a : Attempt) : Outcome Expansion → Attempt → Prop where
  | failed {t e} (refused : store.adjacent t a.front.id .prev = .error e ∨
      store.adjacent t a.last.id .next = .error e ∨
      Session.firstNode (store.sample t 1) = .error e) : Expanded store a (.error e) a
  | grewBack {t n} (found : store.adjacent t a.front.id .prev = .ok (some n))
      (fresh : a.contains n.id = false) : Expanded store a (.value (.prev n.id)) (a.prepend n)
  | grewAhead {t n} (found : store.adjacent t a.last.id .next = .ok (some n))
      (fresh : a.contains n.id = false) : Expanded store a (.value (.next n.id)) (a.append n)
  | startedOver {t n} (sampled : Session.firstNode (store.sample t 1) = .ok n) :
      Expanded store a (.value (.resampled n.id)) (a.restart n)

theorem expand_expanded (w : Collaborators) (a : Attempt) (t : Trace) :
    Expanded w.store a (expand w a t).1 (expand w a t).2.1 := by
  cases before : w.store.adjacent t a.front.id .prev with
  | error e =>
    rw [expand_of_error before]
    exact .failed (.inl before)
  | ok found =>
    rcases fresh_or_known a found with ⟨n, rfl, fresh⟩ | known
    · rw [expand_of_prev before fresh]
      exact .grewBack before fresh
    · cases after : w.store.adjacent (t ++ [.adjacent a.front.id .prev (.ok found)]) a.last.id
        .next with
      | error e =>
        rw [expand_of_next_error before known after]
        exact .failed (.inr (.inl after))
      | ok found' =>
        rcases fresh_or_known a found' with ⟨n, rfl, fresh⟩ | known'
        · rw [expand_of_next before known after fresh]
          exact .grewAhead after fresh
        · rw [expand_of_none before known after known']
          generalize t ++ [.adjacent a.front.id .prev (.ok found)] ++
            [.adjacent a.last.id .next (.ok found')] = t'
          cases sampled : Session.firstNode (w.store.sample t' 1) with
          | error e =>
            rw [Session.bind_error (resample_error sampled)]
            exact .failed (.inr (.inr sampled))
          | ok n =>
            rw [Session.bind_value (resample_ok sampled)]
            exact .startedOver sampled

inductive Moved (store : Store) (a : Attempt) : Attempt → Prop where
  | stayed : Moved store a a
  | countedNode : Moved store a a.countNode
  | countedQuestion : Moved store a a.countQuestion
  | restarted {t n} (sampled : Session.firstNode (store.sample t 1) = .ok n) :
      Moved store a (a.restart n)
  | prepended {t n} (found : store.adjacent t a.front.id .prev = .ok (some n))
      (fresh : a.contains n.id = false) : Moved store a (a.prepend n)
  | appended {t n} (found : store.adjacent t a.last.id .next = .ok (some n))
      (fresh : a.contains n.id = false) : Moved store a (a.append n)

theorem Expanded.moved {outcome : Outcome Expansion} (h : Expanded store a outcome b) :
    Moved store a b := by
  cases h with
  | failed => exact .stayed
  | grewBack found fresh => exact .prepended found fresh
  | grewAhead found fresh => exact .appended found fresh
  | startedOver sampled => exact .restarted sampled

theorem perform_moved (w : Collaborators) (a : Attempt) (t : Trace) (op : Operation) :
    Moved w.store a (a.perform w t op) := by
  cases op with
  | resample =>
    simp only [perform]
    cases sampled : Session.firstNode (w.store.sample t 1) with
    | error e =>
      rw [resample_error sampled]
      exact .stayed
    | ok n =>
      rw [resample_ok sampled]
      exact .restarted sampled
  | expand => exact (expand_expanded w a t).moved
  | rejectNode =>
    simp only [perform]
    rcases a.room_or_spent with room | ⟨max, hm, spent⟩
    · rw [rejectNode_of_room room]
      exact .countedNode
    · rw [rejectNode_of_spent hm spent]
      exact .countedNode
  | rejectQuestion =>
    simp only [perform]
    rcases Nat.lt_or_ge a.tries a.settings.maxTries with room | spent
    · rw [rejectQuestion_of_room room]
      exact .countedQuestion
    · rw [rejectQuestion_of_spent spent]
      exact .countedQuestion

theorem performAll_preserves {P : Attempt → Prop} (step : ∀ a b, Moved w.store a b → P a → P b)
    (h : P a) (calls : List (Trace × Operation)) : P (a.performAll w calls) := by
  induction calls generalizing a with
  | nil => exact h
  | cons call calls ih => exact ih (step a _ (perform_moved w a call.1 call.2) h)

theorem Moved.counters_le (h : Moved store a b) :
    a.tries ≤ b.tries ∧ a.resamples ≤ b.resamples := by
  cases h with
  | countedNode => exact ⟨Nat.le_refl _, Nat.le_succ _⟩
  | countedQuestion => exact ⟨Nat.le_succ _, Nat.le_refl _⟩
  | _ => exact ⟨Nat.le_refl _, Nat.le_refl _⟩

theorem performAll_counters_le (w : Collaborators) (a : Attempt)
    (calls : List (Trace × Operation)) :
    a.tries ≤ (a.performAll w calls).tries ∧ a.resamples ≤ (a.performAll w calls).resamples := by
  apply performAll_preserves (P := fun b => a.tries ≤ b.tries ∧ a.resamples ≤ b.resamples) _
    ⟨Nat.le_refl _, Nat.le_refl _⟩
  intro b c moved ⟨htries, hresamples⟩
  have hle := moved.counters_le
  omega

structure Coherent (a : Attempt) : Prop where
  distinct : a.ids.Nodup
  rooted : a.Rooted

theorem on_coherent (n : Node) (settings : Evolution.Settings) : (on n settings).Coherent :=
  ⟨List.nodup_singleton _, on_rooted n settings⟩

theorem Moved.coherent (h : Moved store a b) (ha : a.Coherent) : b.Coherent := by
  cases h with
  | stayed => exact ha
  | countedNode => exact ⟨ha.distinct, ha.rooted⟩
  | countedQuestion => exact ⟨ha.distinct, ha.rooted⟩
  | restarted => exact ⟨List.nodup_singleton _, restart_rooted a _⟩
  | prepended found fresh =>
    have hnew := contains_eq_false_iff.mp fresh
    exact ⟨List.nodup_cons.mpr ⟨hnew, ha.distinct⟩, ha.rooted.prepend _⟩
  | appended found fresh =>
    have hnew := contains_eq_false_iff.mp fresh
    refine ⟨?_, ha.rooted.append _⟩
    rw [append_ids]
    exact List.nodup_append_comm.mp (List.nodup_cons.mpr ⟨hnew, ha.distinct⟩)

structure Embedded (g : Graph) (a : Attempt) : Prop where
  own : ∀ n ∈ a.window, g.node? n.id = some n
  linked : a.window.IsChain g.Neighbours

section

variable {w : Collaborators} {a b : Attempt} {g : Graph} {choose : Chooser}

theorem node?_of_firstNode {n : Node} {t : Trace} {k : Nat} (owns : g.Owns)
    (h : Session.firstNode ((g.store choose).sample t k) = .ok n) : g.node? n.id = some n := by
  cases hs : (g.store choose).sample t k with
  | error e => simp [hs, Session.firstNode] at h
  | ok nodes =>
    rw [hs] at h
    cases nodes with
    | nil => simp [Session.firstNode] at h
    | cons m more =>
      cases Except.ok.inj h
      obtain ⟨id, hn⟩ := Graph.node?_of_sample hs (List.mem_cons_self ..)
      exact owns.node? hn

theorem on_embedded {n : Node} (own : g.node? n.id = some n) (settings : Evolution.Settings) :
    (on n settings).Embedded g :=
  ⟨by simpa [on, window] using own, .singleton n⟩

theorem Moved.embedded (owns : g.Owns) (h : Moved (g.store choose) a b) (ha : a.Embedded g) :
    b.Embedded g := by
  cases h with
  | stayed => exact ha
  | countedNode => exact ⟨ha.own, ha.linked⟩
  | countedQuestion => exact ⟨ha.own, ha.linked⟩
  | restarted sampled =>
    have own := node?_of_firstNode owns sampled
    exact ⟨by simpa [restart, window] using own, .singleton _⟩
  | prepended found fresh =>
    obtain ⟨id, -, hn⟩ := Graph.neighbour?_of_adjacent found
    refine ⟨List.forall_mem_cons.mpr ⟨owns.node? hn, ha.own⟩, ?_⟩
    exact List.isChain_cons_cons.mpr ⟨.inl found, ha.linked⟩
  | appended found fresh =>
    obtain ⟨id, -, hn⟩ := Graph.neighbour?_of_adjacent found
    constructor
    case own =>
      intro m hm
      rw [append_window, List.mem_append, List.mem_singleton] at hm
      rcases hm with hm | rfl
      · exact ha.own m hm
      · exact owns.node? hn
    case linked =>
      refine List.isChain_append.mpr ⟨ha.linked, .singleton _, ?_⟩
      intro x hx y hy
      have hlast : a.window.getLast? = some a.last := List.getLast?_eq_some_getLast _
      cases hlast.symm.trans hx
      cases hy
      exact .inr found

theorem Embedded.known (ha : a.Embedded g) {id : NodeId} (h : id ∈ a.ids) :
    (g.node? id).isSome = true := by
  obtain ⟨n, hn, rfl⟩ := List.mem_map.mp h
  rw [ha.own n hn]
  rfl

theorem Embedded.length_le (ha : a.Embedded g) (coherent : a.Coherent) :
    a.window.length ≤ g.nodeCount := by
  have h := Graph.length_le_nodeCount coherent.distinct fun id => ha.known
  simpa [ids] using h

theorem Expanded.length_of_grows {outcome : Outcome Expansion} (h : Expanded store a outcome b)
    (grows : outcome.any Expansion.grows = true) : b.window.length = a.window.length + 1 := by
  cases h with
  | grewBack => rfl
  | grewAhead => simp
  | failed => cases grows
  | startedOver => cases grows

theorem expandAll_length {ts : List Trace}
    (grow : ∀ x ∈ a.expansions w ts, x.any Expansion.grows = true) :
    (a.expandAll w ts).window.length = a.window.length + ts.length := by
  induction ts generalizing a with
  | nil => rfl
  | cons t ts ih =>
    rw [expansions, List.forall_mem_cons] at grow
    have hstep := (expand_expanded w a t).length_of_grows grow.1
    have hrest := ih grow.2
    rw [expandAll_cons, hrest, List.length_cons]
    change _ = _ + 1 at hstep
    simp only [perform]
    omega

theorem Expanded.value {outcome : Outcome Expansion} (built : g.Assembled) (sound : choose.Sound)
    (ha : a.Embedded g) (h : Expanded (g.store choose) a outcome b) : ∃ x, outcome = .value x := by
  have hfront : g.node? a.front.id = some a.front := ha.own _ (List.mem_cons_self ..)
  have hlast : g.node? a.last.id = some a.last := ha.own _ (List.getLast_mem _)
  cases h with
  | grewBack => exact ⟨_, rfl⟩
  | grewAhead => exact ⟨_, rfl⟩
  | startedOver => exact ⟨_, rfl⟩
  | @failed t e refused =>
    exfalso
    rcases refused with refused | refused | refused
    · cases (Graph.adjacent_of_node hfront .prev).symm.trans refused
    · cases (Graph.adjacent_of_node hlast .next).symm.trans refused
    · obtain ⟨n, hn, -⟩ := built.sample_one sound.picksOne t (by rw [hfront]; rfl)
      rw [hn] at refused
      cases refused

theorem perform_embedded (owns : g.Owns) (hw : w.store = g.store choose) (ha : a.Embedded g)
    (t : Trace) (op : Operation) : (a.perform w t op).Embedded g :=
  (hw ▸ perform_moved w a t op).embedded owns ha

theorem performAll_embedded (owns : g.Owns) (hw : w.store = g.store choose) (ha : a.Embedded g)
    (calls : List (Trace × Operation)) : (a.performAll w calls).Embedded g :=
  performAll_preserves (fun _ _ moved hb => (hw ▸ moved).embedded owns hb) ha calls

theorem performAll_coherent (ha : a.Coherent) (calls : List (Trace × Operation)) :
    (a.performAll w calls).Coherent :=
  performAll_preserves (fun _ _ moved hb => moved.coherent hb) ha calls

theorem expansions_value (built : g.Assembled) (sound : choose.Sound)
    (hw : w.store = g.store choose) (ha : a.Embedded g) (ts : List Trace) :
    ∀ x ∈ a.expansions w ts, ∃ e, x = .value e := by
  induction ts generalizing a with
  | nil => simp [expansions]
  | cons t ts ih =>
    have hstep := expand_expanded w a t
    rw [hw] at hstep
    rw [expansions, List.forall_mem_cons]
    exact ⟨hstep.value built sound ha, ih (perform_embedded built.owns hw ha t .expand)⟩

/-- The window has grown by one node for each expansion, and there are no more nodes. -/
theorem length_lt_of_grow (owns : g.Owns) (hw : w.store = g.store choose) (ha : a.Embedded g)
    (coherent : a.Coherent) {ts : List Trace}
    (grow : ∀ x ∈ a.expansions w ts, x.any Expansion.grows = true) : ts.length < g.nodeCount := by
  have hgrown := expandAll_length grow
  have hle := (performAll_embedded owns hw ha (ts.map (·, .expand))).length_le
    (performAll_coherent coherent _)
  have hpos : 0 < a.window.length := Nat.succ_pos _
  simp only [expandAll] at hgrown
  omega

theorem exists_resampled (built : g.Assembled) (sound : choose.Sound)
    (hw : w.store = g.store choose) (ha : a.Embedded g) (coherent : a.Coherent) {ts : List Trace}
    (long : g.nodeCount ≤ ts.length) : ∃ id, .value (.resampled id) ∈ a.expansions w ts := by
  by_contra never
  have grow : ∀ x ∈ a.expansions w ts, x.any Expansion.grows = true := by
    intro x hx
    obtain ⟨e, rfl⟩ := expansions_value built sound hw ha ts x hx
    cases e with
    | prev => rfl
    | next => rfl
    | resampled id => exact absurd ⟨id, hx⟩ never
  have hlt := length_lt_of_grow built.owns hw ha coherent grow
  omega

theorem start_value {σ : Type} {settings : Evolution.Settings} {s s' : σ} {t t' : Trace}
    (h : start settings w s t = (.value a, s', t')) :
    ∃ n, Session.firstNode (w.store.sample t 1) = .ok n ∧ a = on n settings := by
  cases hn : Session.firstNode (w.store.sample t 1) with
  | error e =>
    rw [start_error hn] at h
    cases h
  | ok n =>
    rw [start_ok hn] at h
    cases h
    exact ⟨n, rfl, rfl⟩

end

/-- Whatever a store answers, the window of an attempt is not empty, its nodes are distinct and its
root is among them, and no counter falls. Over an assembled graph it is a path of the graph's own
nodes; it grows fewer times in a row than there are nodes, and then starts over. -/
theorem window_invariant {σ : Type} {settings : Evolution.Settings} {w : Collaborators} {s s' : σ}
    {t t' : Trace} {opened : Attempt} (started : start settings w s t = (.value opened, s', t'))
    (calls : List (Trace × Operation)) :
    let a := opened.performAll w calls
    a.window[0]? = some a.front ∧ a.window[a.window.length - 1]? = some a.last ∧
      a.ids.Nodup ∧ a.root ∈ a.ids ∧
      (∀ more, a.tries ≤ (a.performAll w more).tries ∧
        a.resamples ≤ (a.performAll w more).resamples) ∧
      ∀ (g : Graph) (choose : Chooser), g.Assembled → w.store = g.store choose →
        (∀ n ∈ a.window, g.node? n.id = some n) ∧ a.window.IsChain g.Neighbours ∧
        a.window.length ≤ g.nodeCount ∧
        (∀ ts, (∀ x ∈ a.expansions w ts, x.any Expansion.grows = true) →
          ts.length < g.nodeCount) ∧
        (choose.Sound → ∀ ts : List Trace, g.nodeCount ≤ ts.length →
          ∃ id, .value (.resampled id) ∈ a.expansions w ts) := by
  intro a
  obtain ⟨n, sampled, rfl⟩ := start_value started
  have coherent : a.Coherent := performAll_coherent (on_coherent n settings) calls
  refine ⟨rfl, ?last, coherent.distinct, coherent.rooted, performAll_counters_le w a, ?graph⟩
  case last =>
    rw [← List.getLast?_eq_getElem?]
    exact List.getLast?_eq_some_getLast _
  case graph =>
    intro g choose built hw
    have own := node?_of_firstNode built.owns (hw ▸ sampled)
    have embedded : a.Embedded g :=
      performAll_embedded built.owns hw (on_embedded own settings) calls
    refine ⟨embedded.own, embedded.linked, embedded.length_le coherent, ?_, ?_⟩
    · intro ts grow
      exact length_lt_of_grow built.owns hw embedded coherent grow
    · intro sound ts long
      exact exists_resampled built sound hw embedded coherent long

end Attempt

def Collaborators.onGraph (g : Graph) (choose : Chooser) : Collaborators :=
  { Collaborators.scripted default [] with store := g.store choose }

def Chooser.firsts : Chooser := fun _ _ k => List.range k

theorem Chooser.firsts_sound : Chooser.firsts.Sound := by
  intro t available k h
  refine ⟨List.length_range, List.nodup_range, ?_⟩
  intro i hi
  exact Nat.lt_of_lt_of_le (List.mem_range.mp hi) h

def Assembly.rowOperations : List Assembly.Operation :=
  [.addChunk "row" "one", .addChunk "row" "two", .addChunk "row" "three",
    .linkSequence [⟨1⟩, ⟨2⟩, ⟨3⟩], .addChunk "alone" "four", .linkSimilar ⟨3⟩ ⟨4⟩ (.ofNat 1)]

def Graph.row : Graph := (Assembly.new.performAll Assembly.rowOperations).build

theorem Graph.row_assembled : Graph.row.Assembled := ⟨1, Assembly.rowOperations, rfl⟩

namespace Attempt

theorem window_invariant_row :
    ∃ opened t', start {} (.onGraph .row .firsts) () [] = (.value opened, (), t') ∧
      let a := opened.performAll (.onGraph .row .firsts) [([], .expand), ([], .rejectQuestion)]
      a.ids = [⟨1⟩, ⟨2⟩] ∧ a.tries = 1 ∧ a.ids.Nodup ∧
        a.window.IsChain Graph.row.Neighbours ∧
        ∃ id, .value (.resampled id) ∈ a.expansions (.onGraph .row .firsts) [[], [], [], []] := by
  refine ⟨_, _, rfl, ?_⟩
  obtain ⟨-, -, distinct, -, -, path⟩ :=
    window_invariant (rfl : start {} (.onGraph .row .firsts) () [] = _)
      [([], .expand), ([], .rejectQuestion)]
  obtain ⟨-, linked, -, -, again⟩ := path .row .firsts Graph.row_assembled rfl
  exact ⟨rfl, rfl, distinct, linked, again Chooser.firsts_sound _ (by decide +kernel)⟩

end Attempt

end QuestionSynthesis
