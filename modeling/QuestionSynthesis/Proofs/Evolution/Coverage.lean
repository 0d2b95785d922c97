import QuestionSynthesis.Proofs.Corpus.Sequences
import QuestionSynthesis.Proofs.Evolution.Window

/-!
# Windows over chained chunks

Over a graph of chains a window is always a stretch of one chain, since an expansion asks for what
comes right before and right after it (`Moved.within`). Expansions in a row take a window back to
the beginning of its chain, then on to the end, and only then to another one (`expansions_stretch`).
-/

namespace QuestionSynthesis

namespace Attempt

variable {w : Collaborators} {store : Store} {a b : Attempt} {g : Graph} {choose : Chooser}
  {chains : List (List NodeId)} {p s : List NodeId} {x y : NodeId}

theorem ids_eq_cons (a : Attempt) : a.ids = a.front.id :: a.rest.map Node.id := rfl

theorem ids_eq_concat (a : Attempt) : ∃ q, a.ids = q ++ [a.last.id] := by
  have h : a.window = a.window.dropLast ++ [a.last] :=
    (List.dropLast_append_getLast (List.cons_ne_nil _ _)).symm
  exact ⟨a.window.dropLast.map Node.id, by rw [ids, h]; simp⟩

section

variable (chained : g.Chained chains) (hstore : store = g.store choose)
  (on : p ++ a.ids ++ s ∈ chains) (t : Trace)

include chained hstore on

theorem adjacent_front : ∃ found, store.adjacent t a.front.id .prev = .ok found ∧
    found.map Node.id = p.getLast? := by
  rw [ids_eq_cons, List.append_assoc, List.cons_append] at on
  subst hstore
  exact chained.adjacent_on on .prev

theorem adjacent_last : ∃ found, store.adjacent t a.last.id .next = .ok found ∧
    found.map Node.id = s.head? := by
  obtain ⟨q, hq⟩ := a.ids_eq_concat
  rw [hq, ← List.append_assoc, List.append_assoc, List.singleton_append] at on
  subst hstore
  exact chained.adjacent_on on .next

end

/-- A window is a stretch of a chain, or a single node off all chains. -/
def Within (chains : List (List NodeId)) (a : Attempt) : Prop :=
  (∃ c ∈ chains, a.ids <:+: c) ∨ a.ids = [a.root] ∧ ∀ c ∈ chains, a.root ∉ c

theorem within_of_single {a : Attempt} (single : a.ids = [a.root]) : a.Within chains := by
  by_cases h : ∃ c ∈ chains, a.root ∈ c
  · obtain ⟨c, hc, hroot⟩ := h
    obtain ⟨q, r, rfl⟩ := List.append_of_mem hroot
    exact .inl ⟨_, hc, q, r, by simp [single]⟩
  · exact .inr ⟨single, fun c hc hroot => h ⟨c, hc, hroot⟩⟩

theorem Moved.within (chained : g.Chained chains) (h : Moved (g.store choose) a b)
    (ha : a.Within chains) : b.Within chains := by
  cases h with
  | stayed => exact ha
  | countedNode => exact ha
  | countedQuestion => exact ha
  | restarted sampled => exact within_of_single rfl
  | @prepended t n found fresh =>
    rcases ha with ⟨c, hc, q, r, rfl⟩ | ⟨single, off⟩
    · obtain ⟨found', hfound, hlast⟩ := adjacent_front chained rfl hc t
      cases hfound.symm.trans found
      obtain ⟨q', rfl⟩ := List.getLast?_eq_some_iff.mp hlast.symm
      exact .inl ⟨_, hc, q', r, by simp⟩
    · have hfront : a.front.id = a.root := (List.cons.inj single).1
      exact absurd (hfront ▸ found) (chained.adjacent_off off .prev n)
  | @appended t n found fresh =>
    rcases ha with ⟨c, hc, q, r, rfl⟩ | ⟨single, off⟩
    · obtain ⟨found', hfound, hhead⟩ := adjacent_last chained rfl hc t
      cases hfound.symm.trans found
      obtain ⟨r', rfl⟩ := List.head?_eq_some_iff.mp hhead.symm
      exact .inl ⟨_, hc, q, r', by simp⟩
    · obtain ⟨q, hq⟩ := a.ids_eq_concat
      have hlast : a.last.id = a.root := by
        simpa using congrArg List.getLast? (hq.symm.trans single)
      exact absurd (hlast ▸ found) (chained.adjacent_off off .next n)

section

variable (chained : g.Chained chains) (hw : w.store = g.store choose) (t : Trace)

include chained hw

theorem expand_back (on : p ++ [x] ++ a.ids ++ s ∈ chains) :
    (expand w a t).1 = .value (.prev x) ∧ (a.perform w t .expand).ids = x :: a.ids := by
  obtain ⟨found, before, hlast⟩ := adjacent_front chained hw on t
  rw [List.getLast?_concat] at hlast
  obtain ⟨n, rfl, rfl⟩ := Option.map_eq_some_iff.mp hlast
  have distinct := chained.distinct _ on
  have fresh : a.contains n.id = false := by
    apply contains_eq_false_iff.mpr
    intro hmem
    simp only [List.append_assoc, List.singleton_append] at distinct
    have hnew := (List.nodup_cons.mp (List.nodup_append.mp distinct).2.1).1
    exact hnew (List.mem_append_left _ hmem)
  simp [perform, expand_of_prev before fresh]

theorem expand_ahead (on : [] ++ a.ids ++ y :: s ∈ chains) :
    (expand w a t).1 = .value (.next y) ∧ (a.perform w t .expand).ids = a.ids ++ [y] := by
  obtain ⟨found, before, hfirst⟩ := adjacent_front chained hw on t
  obtain rfl := Option.map_eq_none_iff.mp hfirst
  obtain ⟨found, after, hhead⟩ :=
    adjacent_last chained hw on (t ++ [.adjacent a.front.id .prev (.ok none)])
  obtain ⟨n, rfl, rfl⟩ := Option.map_eq_some_iff.mp hhead
  have distinct : (a.ids ++ n.id :: s).Nodup := chained.distinct _ on
  have fresh : a.contains n.id = false := by
    apply contains_eq_false_iff.mpr
    intro hmem
    exact (List.nodup_append.mp distinct).2.2 _ hmem _ (List.mem_cons_self ..) rfl
  simp [perform, expand_of_next before (by simp) after fresh]

theorem expand_over (built : g.Assembled) (sound : choose.Sound)
    (on : [] ++ a.ids ++ [] ∈ chains) :
    ∃ id, (expand w a t).1 = .value (.resampled id) ∧ (a.perform w t .expand).ids = [id] := by
  obtain ⟨found, before, hfirst⟩ := adjacent_front chained hw on t
  obtain rfl := Option.map_eq_none_iff.mp hfirst
  obtain ⟨found, after, hlast⟩ :=
    adjacent_last chained hw on (t ++ [.adjacent a.front.id .prev (.ok none)])
  obtain rfl := Option.map_eq_none_iff.mp hlast
  simp only [perform, expand_of_none before (by simp) after (by simp)]
  generalize t ++ [.adjacent a.front.id .prev (.ok none)] ++
    [.adjacent a.last.id .next (.ok none)] = t'
  have known := chained.known _ on a.front.id (by simp [ids_eq_cons])
  obtain ⟨n, hn, -⟩ := built.sample_one sound.picksOne t' known
  have sampled : Session.firstNode (w.store.sample t' 1) = .ok n := by
    rw [hw, hn]
    rfl
  rw [Session.bind_value (resample_ok sampled)]
  exact ⟨n.id, rfl, rfl⟩

end

def covering (before after : List NodeId) : List (Outcome Expansion) :=
  (before.reverse.map fun id => .value (.prev id)) ++ after.map fun id => .value (.next id)

theorem expansions_stretch (chained : g.Chained chains) (hw : w.store = g.store choose)
    {ts : List Trace} (on : p ++ a.ids ++ s ∈ chains) (long : ts.length = p.length + s.length) :
    a.expansions w ts = covering p s ∧ (a.expandAll w ts).ids = p ++ a.ids ++ s := by
  -- as long as something comes before the window nothing after it is added
  induction ts generalizing a p s with
  | nil =>
    have hp : p = [] := List.eq_nil_of_length_eq_zero (by simp at long; omega)
    have hs : s = [] := List.eq_nil_of_length_eq_zero (by simp at long; omega)
    subst hp hs
    exact ⟨rfl, by simp [expandAll, performAll]⟩
  | cons t ts ih =>
    rcases List.eq_nil_or_concat' p with rfl | ⟨q, x, rfl⟩
    · cases s with
      | nil => simp at long
      | cons y s =>
        obtain ⟨hy, hids⟩ := expand_ahead chained hw t on
        have on' : [] ++ (a.perform w t .expand).ids ++ s ∈ chains := by simpa [hids] using on
        obtain ⟨hrest, hall⟩ := ih on' (by simpa using long)
        rw [expandAll_cons, hall, expansions, hy, hrest, hids]
        simp [covering]
    · obtain ⟨hx, hids⟩ := expand_back chained hw t on
      have on' : q ++ (a.perform w t .expand).ids ++ s ∈ chains := by simpa [hids] using on
      obtain ⟨hrest, hall⟩ := ih on' (by simp at long; omega)
      rw [expandAll_cons, hall, expansions, hx, hrest, hids]
      simp [covering]

theorem expansions_place (chained : g.Chained chains) (hw : w.store = g.store choose)
    {chunks : List NodeId} (on : chunks ∈ chains) {place : Nat} {id : NodeId}
    (there : chunks[place]? = some id) (single : a.ids = [id]) {ts : List Trace}
    (long : ts.length + 1 = chunks.length) :
    a.expansions w ts = covering (chunks.take place) (chunks.drop (place + 1)) ∧
      (a.expandAll w ts).ids = chunks := by
  obtain ⟨hlt, hget⟩ := List.getElem?_eq_some_iff.mp there
  have hsplit : chunks.take place ++ a.ids ++ chunks.drop (place + 1) = chunks := by
    rw [single, ← hget, List.append_assoc, List.singleton_append, List.getElem_cons_drop,
      List.take_append_drop]
  have hlength : ts.length = (chunks.take place).length + (chunks.drop (place + 1)).length := by
    rw [List.length_take, List.length_drop]
    omega
  have h := expansions_stretch chained hw (by rwa [hsplit]) hlength
  rwa [hsplit] at h

theorem performAll_within (chained : g.Chained chains) (hw : w.store = g.store choose) (n : Node)
    (settings : Evolution.Settings) (calls : List (Trace × Operation)) :
    ((on n settings).performAll w calls).Within chains := by
  apply performAll_preserves _ (within_of_single rfl)
  intro a b moved ha
  rw [hw] at moved
  exact moved.within chained ha

/-- Over chains that operations have linked, every window of an attempt is a stretch of one chain
around the root, or the root alone if it is on no chain. From one node of a chain expansions go back
to its beginning, then on to its end, and only with the whole chain in the window start over. -/
theorem windows_cover_chains {first : Nat} {ops : List Assembly.Operation}
    {chains : List (List NodeId)} (linked : Assembly.Sequenced first ops chains)
    {w : Collaborators} {choose : Chooser}
    (hw : w.store = ((Assembly.empty first).performAll ops).build.store choose) :
    (∀ {σ : Type} {settings : Evolution.Settings} {s s' : σ} {t t' : Trace} {opened : Attempt},
      start settings w s t = (.value opened, s', t') → ∀ calls,
        let a := opened.performAll w calls
        (∃ c ∈ chains, a.ids <:+: c ∧ a.root ∈ a.ids) ∨
          a.ids = [a.root] ∧ ∀ c ∈ chains, a.root ∉ c) ∧
    ∀ chunks ∈ chains, ∀ (place : Nat) (id : NodeId), chunks[place]? = some id →
      ∀ a : Attempt, a.ids = [id] → ∀ ts : List Trace, ts.length + 1 = chunks.length →
        a.expansions w ts =
          ((chunks.take place).reverse.map fun x => .value (.prev x)) ++
            (chunks.drop (place + 1)).map (fun x => .value (.next x)) ∧
        (a.expandAll w ts).ids = chunks ∧
        (choose.Sound → ∀ t, ∃ root,
          (expand w (a.expandAll w ts) t).1 = .value (.resampled root) ∧
            ((a.expandAll w ts).perform w t .expand).ids = [root]) := by
  have chained := linked.chained
  constructor
  · intro σ settings s s' t t' opened started calls a
    obtain ⟨n, -, rfl⟩ := start_value started
    have coherent : a.Coherent := performAll_coherent (on_coherent n settings) calls
    rcases performAll_within chained hw n settings calls with ⟨c, hc, stretch⟩ | alone
    · exact .inl ⟨c, hc, stretch, coherent.rooted⟩
    · exact .inr alone
  · intro chunks on place id there a single ts long
    obtain ⟨course, whole⟩ := expansions_place chained hw on there single long
    refine ⟨course, whole, ?_⟩
    intro sound t
    exact expand_over chained hw t ⟨first, ops, rfl⟩ sound (by simpa [whole] using on)

theorem rowOperations_sequenced :
    Assembly.Sequenced 1 Assembly.rowOperations [[⟨1⟩, ⟨2⟩, ⟨3⟩]] := by
  have added : Assembly.Sequenced 1 (Assembly.rowOperations.take 3) [] :=
    ((Assembly.Sequenced.nil.other (Assembly.leaves_addChunk _ "row" "one")).other
      (Assembly.leaves_addChunk _ "row" "two")).other (Assembly.leaves_addChunk _ "row" "three")
  have known : ∀ id ∈ ([⟨1⟩, ⟨2⟩, ⟨3⟩] : List NodeId),
      ((Assembly.empty 1).performAll (Assembly.rowOperations.take 3)).has id = true := by
    decide +kernel
  exact ((added.link known (by decide) (by simp)).other
    (Assembly.leaves_addChunk _ "alone" "four")).other
      (Assembly.leaves_linkSimilar _ ⟨3⟩ ⟨4⟩ (.ofNat 1))

theorem windows_cover_row :
    (∃ opened t', start {} (.onGraph .row .firsts) () [] = (.value opened, (), t') ∧
      let a := opened.performAll (.onGraph .row .firsts) [([], .expand)]
      a.ids <:+: [⟨1⟩, ⟨2⟩, ⟨3⟩] ∧ a.root ∈ a.ids) ∧
    let a := on { id := ⟨2⟩, docId := "row", content := "two" } {}
    a.expansions (.onGraph .row .firsts) [[], []] = [.value (.prev ⟨1⟩), .value (.next ⟨3⟩)] ∧
      (a.expandAll (.onGraph .row .firsts) [[], []]).ids = [⟨1⟩, ⟨2⟩, ⟨3⟩] ∧
      ∃ root, (expand (.onGraph .row .firsts) (a.expandAll (.onGraph .row .firsts) [[], []]) []).1 =
        .value (.resampled root) := by
  have hw : (Collaborators.onGraph .row .firsts).store =
      ((Assembly.empty 1).performAll Assembly.rowOperations).build.store .firsts := rfl
  obtain ⟨stays, covers⟩ := windows_cover_chains rowOperations_sequenced hw
  constructor
  · refine ⟨_, _, rfl, ?_⟩
    rcases stays (rfl : start {} (.onGraph .row .firsts) () [] = _) [([], .expand)] with
      ⟨c, hc, stretch⟩ | ⟨-, off⟩
    · cases List.mem_singleton.mp hc
      exact stretch
    · exact absurd (by decide +kernel) (off [⟨1⟩, ⟨2⟩, ⟨3⟩] (by simp))
  · intro a
    obtain ⟨course, whole, again⟩ :=
      covers [⟨1⟩, ⟨2⟩, ⟨3⟩] (by simp) 1 ⟨2⟩ rfl a rfl [[], []] rfl
    obtain ⟨root, hroot, -⟩ := again Chooser.firsts_sound []
    exact ⟨course, whole, root, hroot⟩

end Attempt

end QuestionSynthesis
