import EntityCache.Proofs.Cluster.Course

/-!
# Nodes are marked by their flights

`Outline.Marked` ties the marks of the nodes to the flights that have made them: an agent is marked
on a node exactly if a flight of the node has entered, and then it is one flight only.  A flight
marks an agent only where it finds it without a mark, and takes back only what it has marked itself;
so the marks stay right after every act (`Marked.step`).

An act does one of four things to a mark: it leaves all marks alone (`Marked.keep`), makes one
(`Marked.enter`), takes one back (`Marked.unmark`), or adds a flight without a mark
(`Marked.launch`).
-/

namespace EntityCache

namespace Cluster

open Firing Function

namespace Outline

variable {own : String → String → Prop} {a : Act} {c c' : Outline} {id : Nat} {f f' : Flight}

/-- The flight of a number has marked an agent on a node. -/
def Entered (name agent : String) (id : Nat) (c : Outline) : Prop :=
  ∃ f, c.flights id = some f ∧ f.entered = true ∧ f.node = some name ∧ f.agent = agent

/-- The nodes of flights are there. -/
def Placed (c : Outline) : Prop :=
  ∀ id f name, c.flights id = some f → f.node = some name → (c.nodes name).isSome

/-- The marks of the nodes are those of the flights, and no two flights have made the same mark. -/
structure Marked (c : Outline) : Prop where
  placed : c.Placed
  active : ∀ name post agent, c.nodes name = some post →
    (agent ∈ post.active ↔ ∃ id, c.Entered name agent id)
  alone : ∀ name agent i j, c.Entered name agent i → c.Entered name agent j → i = j

/-- Whether a flight has marked an agent is read off its fields. -/
theorem entered_iff {name agent : String} (h : c.flights id = some f) :
    c.Entered name agent id ↔ f.entered = true ∧ f.node = some name ∧ f.agent = agent := by
  simp [Entered, h]

/-- Which flights have entered after one of them changes. -/
theorem entered_put {name agent : String} {g : Option Flight} {j : Nat} :
    (c.put id g).Entered name agent j ↔
      (j = id ∧ ∃ f, g = some f ∧ f.entered = true ∧ f.node = some name ∧ f.agent = agent) ∨
        (j ≠ id ∧ c.Entered name agent j) := by
  by_cases hj : j = id
  · subst hj
    simp [Entered, Outline.put]
  · simp [Entered, Outline.put, hj]

/-- What is read off a node after a change. -/
theorem map_nodes_amend {α : Type} (place : Option String) (g : Post → Post) (read : Post → α)
    (name : String) : ((c.amend place g).nodes name).map read =
      (c.nodes name).map fun post => if place = some name then read (g post) else read post := by
  unfold amend
  dsimp only
  split <;> simp [Function.comp_def]

/-- A flight that changes stays on its node, and the nodes are still there. -/
theorem Placed.put (h : c.Placed) (hflies : c.flights id = some f) {g : Option Flight}
    (hg : ∀ f', g = some f' → f'.node = f.node) (hflights : c'.flights = c.flights)
    (hnodes : ∀ name, (c'.nodes name).isSome = (c.nodes name).isSome) : (c'.put id g).Placed := by
  intro j f' name hf' hname
  show (c'.nodes name).isSome = true
  rw [hnodes]
  by_cases hj : j = id
  · subst hj
    have hput : g = some f' := by simpa [Outline.put] using hf'
    exact h j f name hflies (hg f' hput ▸ hname)
  · have hf : c.flights j = some f' := by simpa [Outline.put, hj, hflights] using hf'
    exact h j f' name hf hname

/-- A flight is put in its own place with its mark as it was, and no mark of a node changes. -/
theorem Marked.keep (h : c.Marked) (hflies : c.flights id = some f)
    (hsame : f'.entered = f.entered ∧ f'.node = f.node ∧ f'.agent = f.agent)
    (hflights : c'.flights = c.flights)
    (hnodes : ∀ name, (c'.nodes name).map (·.active) = (c.nodes name).map (·.active)) :
    (c'.put id (some f')).Marked := by
  -- which flights have entered is read off node, agent and mark, and these are the same
  have hentered {name agent : String} {j : Nat} :
      (c'.put id (some f')).Entered name agent j ↔ c.Entered name agent j := by
    rw [entered_put]
    by_cases hj : j = id
    · subst hj
      rw [entered_iff hflies]
      simp [hsame.1, hsame.2.1, hsame.2.2]
    · simp [Entered, hj, hflights]
  refine ⟨h.placed.put hflies ?_ hflights ?_, ?_, ?_⟩
  · intro g hg
    obtain rfl := Option.some.inj hg
    exact hsame.2.1
  · intro name
    simpa using congrArg Option.isSome (hnodes name)
  · intro name post agent hpost
    have hactive := hnodes name
    rw [show c'.nodes name = some post from hpost] at hactive
    obtain ⟨post', hpost', heq⟩ := Option.map_eq_some_iff.1 hactive.symm
    have hsame : post'.active = post.active := heq
    rw [← hsame, h.active name post' agent hpost']
    simp only [hentered]
  · intro name agent i j hi hj
    exact h.alone name agent i j (hentered.1 hi) (hentered.1 hj)

/-- A flight's mark is taken back, if it has one; the flight goes on without or is gone. -/
theorem Marked.unmark (h : c.Marked) (hflies : c.flights id = some f) {g : Option Flight}
    (hg : ∀ f', g = some f' → f'.entered = false ∧ f'.node = f.node)
    (hflights : c'.flights = c.flights)
    (hnodes : ∀ name, (c'.nodes name).map (·.active) = (c.nodes name).map fun post =>
      if f.entered = true ∧ f.node = some name then post.active.erase f.agent else post.active) :
    (c'.put id g).Marked := by
  -- the flight no longer counts, and the others are as they were
  have hentered {name agent : String} {j : Nat} :
      (c'.put id g).Entered name agent j ↔ j ≠ id ∧ c.Entered name agent j := by
    have hgone :
        ¬∃ f', g = some f' ∧ f'.entered = true ∧ f'.node = some name ∧ f'.agent = agent := by
      rintro ⟨f', hf', htrue, -⟩
      simp [(hg f' hf').1] at htrue
    rw [entered_put]
    simp [hgone, Entered, hflights]
  refine ⟨h.placed.put hflies (fun f' hf' => (hg f' hf').2) hflights ?_, ?_, ?_⟩
  · intro name
    simpa using congrArg Option.isSome (hnodes name)
  · intro name post agent hpost
    have hactive := hnodes name
    rw [show c'.nodes name = some post from hpost] at hactive
    obtain ⟨post', hpost', heq⟩ := Option.map_eq_some_iff.1 hactive.symm
    simp only [hentered, ← show _ = post.active from heq]
    by_cases hmark : f.entered = true ∧ f.node = some name ∧ f.agent = agent
    · -- the mark that is taken back was the only one
      have hown : c.Entered name agent id := (entered_iff hflies).2 hmark
      have hnobody : ¬∃ j, j ≠ id ∧ c.Entered name agent j := by
        rintro ⟨j, hj, hother⟩
        exact hj (h.alone name agent j id hother hown)
      rw [if_pos ⟨hmark.1, hmark.2.1⟩, hmark.2.2]
      exact iff_of_false (by simp) hnobody
    · -- any other mark stays, and its flight is another one
      have hiff : agent ∈ (if f.entered = true ∧ f.node = some name then post'.active.erase f.agent
          else post'.active) ↔ agent ∈ post'.active := by
        split
        case isTrue hplace =>
          have hne : f.agent ≠ agent := fun heq => hmark ⟨hplace.1, hplace.2, heq⟩
          simp [Std.ExtTreeSet.mem_erase, hne]
        case isFalse => rfl
      rw [hiff, h.active name post' agent hpost']
      refine exists_congr fun j => ⟨fun hj => ⟨?_, hj⟩, And.right⟩
      rintro rfl
      exact hmark ((entered_iff hflies).1 hj)
  · intro name agent i j hi hj
    exact h.alone name agent i j (hentered.1 hi).2 (hentered.1 hj).2

/-- A flight marks its agent, which no other flight of its node has marked. -/
theorem Marked.enter (h : c.Marked) (hflies : c.flights id = some f) (hfree : ¬c.Active f) :
    ((c.amend f.node (Post.mark f.agent true)).put id
      (some { f with entered := true })).Marked := by
  have hnone {j : Nat} {name : String} (hname : f.node = some name) :
      ¬c.Entered name f.agent j := by
    intro hj
    obtain ⟨post, hpost⟩ := Option.isSome_iff_exists.1 (h.placed id f name hflies hname)
    exact hfree ⟨name, post, hname, hpost, (h.active name post f.agent hpost).2 ⟨j, hj⟩⟩
  have hentered {name agent : String} {j : Nat} :
      ((c.amend f.node (Post.mark f.agent true)).put id (some { f with entered := true })).Entered
        name agent j ↔
        (j = id ∧ f.node = some name ∧ f.agent = agent) ∨ (j ≠ id ∧ c.Entered name agent j) := by
    rw [entered_put]
    simp [Entered, Outline.amend]
  refine ⟨h.placed.put hflies ?_ rfl ?_, ?_, ?_⟩
  · intro g hg
    obtain rfl := Option.some.inj hg
    rfl
  · intro name
    simpa using congrArg Option.isSome (map_nodes_amend f.node (Post.mark f.agent true)
      (fun post => post) name)
  · intro name post agent hpost
    -- apart from the new mark nothing changes
    have hold (hother : ¬(f.node = some name ∧ f.agent = agent)) :
        (∃ j, ((c.amend f.node (Post.mark f.agent true)).put id
          (some { f with entered := true })).Entered name agent j) ↔
          ∃ j, c.Entered name agent j := by
      refine exists_congr fun j => ?_
      rw [hentered]
      refine ⟨?_, fun hj => .inr ⟨?_, hj⟩⟩
      · rintro (⟨-, hmark⟩ | ⟨-, hj⟩)
        · exact absurd hmark hother
        · exact hj
      · rintro rfl
        exact hother ((entered_iff hflies).1 hj).2
    have hamended : (c.amend f.node (Post.mark f.agent true)).nodes name = some post := hpost
    by_cases hplace : f.node = some name
    · simp only [Outline.amend, if_pos hplace, Option.map_eq_some_iff] at hamended
      obtain ⟨post', hpost', rfl⟩ := hamended
      by_cases hagent : f.agent = agent
      · exact iff_of_true (by simp [Post.mark, hagent])
          ⟨id, hentered.2 (.inl ⟨rfl, hplace, hagent⟩)⟩
      · rw [hold fun hmark => hagent hmark.2, ← h.active name post' agent hpost']
        simp [Post.mark, Std.ExtTreeSet.mem_insert, hagent]
    · simp only [Outline.amend, if_neg hplace] at hamended
      rw [hold fun hmark => hplace hmark.1, h.active name post agent hamended]
  · intro name agent i j hi hj
    -- a second flight with the new mark would have kept the first one out
    rcases hentered.1 hi with ⟨rfl, hname, rfl⟩ | ⟨-, hi'⟩
    · rcases hentered.1 hj with ⟨rfl, -⟩ | ⟨-, hj'⟩
      · rfl
      · exact absurd hj' (hnone hname)
    · rcases hentered.1 hj with ⟨rfl, hname, rfl⟩ | ⟨-, hj'⟩
      · exact absurd hi' (hnone hname)
      · exact h.alone name agent i j hi' hj'

/-- An answered request keeps the marks right. -/
theorem Marked.resume (h : c.Marked) (hflies : c.flights id = some f) {own : String → Prop}
    {phase : Phase} {process : String} {r : Request} {reply : r.Reply}
    {next : r.Reply → Steps Ended} (hfollows : Follows process own phase (.ask r next))
    (hat : f.At own phase)
    (hserved : Served id f c r reply f' c') (program : Steps Ended) :
    (c'.put id (some { f' with program })).Marked := by
  -- marks change when a flight enters and when it leaves; the other requests keep them
  cases hfollows with
  | resolve =>
    obtain ⟨name, post, resolver, resolver', hname, hpost, -, -, rfl, rfl⟩ := hserved
    refine h.keep hflies ⟨rfl, rfl, rfl⟩ rfl ?_
    intro name
    rw [map_nodes_amend]
    simp
  | enter =>
    rcases hserved with ⟨-, rfl, rfl⟩ | ⟨-, hfree, rfl, rfl⟩
    · exact h.keep hflies ⟨rfl, rfl, rfl⟩ rfl fun _ => rfl
    · have hentered := h.enter hflies hfree
      have hput : ((c.amend f.node (Post.mark f.agent true)).put id
          (some { f with entered := true })).flights id = some { f with entered := true } := by
        simp [Outline.put]
      have hnext : (((c.amend f.node (Post.mark f.agent true)).put id
          (some { f with entered := true })).put id
            (some { f with entered := true, program })).Marked :=
        hentered.keep hput ⟨rfl, rfl, rfl⟩ rfl fun _ => rfl
      rwa [put_put] at hnext
  | acquire =>
    obtain ⟨-, rfl, hgranted, hrefused⟩ := hserved
    by_cases hreply : reply = .ok true
    · rw [hgranted hreply]
      exact h.keep hflies ⟨rfl, rfl, rfl⟩ rfl fun _ => rfl
    · rw [hrefused hreply]
      exact h.keep hflies ⟨rfl, rfl, rfl⟩ rfl fun _ => rfl
  | call =>
    obtain ⟨rfl, execution, rfl, -⟩ := hserved
    exact h.keep hflies ⟨rfl, rfl, rfl⟩ rfl fun _ => rfl
  | leave =>
    obtain ⟨rfl, rfl⟩ := hserved
    refine h.unmark hflies ?_ rfl ?_
    · intro f' hf'
      obtain rfl := Option.some.inj hf'
      exact ⟨rfl, rfl⟩
    · intro name
      rw [map_nodes_amend]
      simp [Post.mark, hat.1]
  | guarded =>
    obtain ⟨rfl, execution, rfl, -⟩ := hserved
    exact h.keep hflies ⟨rfl, rfl, rfl⟩ rfl fun _ => rfl
  | release =>
    obtain ⟨rfl, rfl⟩ := hserved
    exact h.keep hflies ⟨rfl, rfl, rfl⟩ rfl fun _ => rfl

/-- A flight that takes off has marked nothing. -/
theorem Marked.launch (h : c.Marked) (hfresh : c.flights c.nextFlight = none)
    (hentered : f.entered = false) (hplaced : ∀ name, f.node = some name → (c.nodes name).isSome) :
    (c.launch f).Marked := by
  -- a flight that has not entered adds no mark
  have hsame {name agent : String} {j : Nat} :
      (c.launch f).Entered name agent j ↔ c.Entered name agent j := by
    by_cases hj : j = c.nextFlight
    · subst hj
      simp [Entered, Outline.launch, Outline.put, hentered, hfresh]
    · simp [Entered, Outline.launch, Outline.put, hj]
  refine ⟨?_, ?_, ?_⟩
  · intro j g name hg hname
    by_cases hj : j = c.nextFlight
    · subst hj
      obtain rfl : f = g := by simpa [Outline.launch, Outline.put] using hg
      exact hplaced name hname
    · have hg' : c.flights j = some g := by simpa [Outline.launch, Outline.put, hj] using hg
      exact h.placed j g name hg' hname
  · intro name post agent hpost
    simp only [hsame]
    exact h.active name post agent hpost
  · intro name agent i j hi hj
    exact h.alone name agent i j (hsame.1 hi) (hsame.1 hj)

/-- Marks are right, whatever happens. -/
theorem Marked.step (h : c.Marked) (hflying : c.Flying own) (hstep : Step a c c') : c'.Marked := by
  cases hstep with
  | rest => exact ⟨h.placed, h.active, h.alone⟩
  | launch node =>
    apply h.launch (hflying.numbered _ (Nat.le_refl _)) rfl
    intro name hname
    obtain rfl := Option.some.inj hname
    simp [node]
  | @land _ id f _ flies done =>
    obtain ⟨name, phase, -, hfollows, hat⟩ := hflying.onCourse id f flies
    rw [done] at hfollows
    -- a program ends outside, where its flight has no mark
    cases hfollows
    refine h.unmark flies (fun f' hf' => by simp at hf') rfl ?_
    intro name
    simp [hat.1]
  | @resume _ _ id f f' r next reply flies asks served =>
    obtain ⟨name, phase, -, hfollows, hat⟩ := hflying.onCourse id f flies
    rw [asks] at hfollows
    exact h.resume flies hfollows hat served _
  | beat flies =>
    exact h.keep flies ⟨rfl, rfl, rfl⟩ rfl fun _ => rfl
  | release left => exact ⟨h.placed, h.active, h.alone⟩
  | @abandon _ id f flies =>
    have hgone : ((c.amend f.node (Post.leave id f)).put id none).Marked := by
      refine h.unmark flies (fun f' hf' => by simp at hf') rfl ?_
      intro name
      rw [map_nodes_amend]
      cases hentered : f.entered <;> simp [Post.leave, Post.giveUp, Post.mark, hentered]
    exact ⟨hgone.placed, hgone.active, hgone.alone⟩

end Outline

end Cluster

end EntityCache
