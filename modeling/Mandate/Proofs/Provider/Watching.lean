import Mandate.Provider.Memory
import Mandate.Proofs.Maps

/-!
# Who watches what

The provider lists every sink once, with all facts that it has asked for.  News about a fact goes
to each open sink that watches the fact, once.  Closed sinks are forgotten on the way, which changes
nothing for the others.

Main results:

- Definition `MemoryProvider.Watches`: the sink watches the fact.
- Theorems `watches_subscribe_iff`, `watches_unsubscribe_iff`, `watches_notify_iff`: how the
  operations change that.
- Definition `MemoryProvider.Merged`: no sink is listed twice, which every operation preserves.
- Theorem `Merged.notify_delivers`: what a sink is sent by one notification.
-/

namespace Mandate
namespace MemoryProvider

/-- The sink watches the fact. -/
def Watches (p : MemoryProvider) (sink : SinkId) (key : FactKey) : Prop :=
  ∃ w ∈ p.watchers, w.sink = sink ∧ key ∈ w.keys

instance (p : MemoryProvider) (sink : SinkId) (key : FactKey) : Decidable (p.Watches sink key) :=
  inferInstanceAs (Decidable (∃ w ∈ p.watchers, w.sink = sink ∧ key ∈ w.keys))

variable {p : MemoryProvider} {sink other : SinkId} {keys : List FactKey} {key : FactKey}

/-! ## Watching -/

theorem exists_watch_iff {watchers : List Watcher} :
    (∃ w ∈ watch sink keys watchers, w.sink = other ∧ key ∈ w.keys) ↔
      (sink = other ∧ key ∈ keys) ∨ ∃ w ∈ watchers, w.sink = other ∧ key ∈ w.keys := by
  induction watchers with
  | nil => simp [watch, Std.TreeSet.mem_ofList]
  | cons first watchers ih =>
    unfold watch
    split
    · rename_i hsink
      simp [hsink, mem_foldl_insert, and_or_left, or_assoc]
    · rw [List.exists_mem_cons_iff, ih, List.exists_mem_cons_iff, or_left_comm]

/-- A subscription adds facts to those that its sink watches. -/
theorem watches_subscribe_iff :
    (p.subscribe sink keys).Watches other key ↔
      (sink = other ∧ key ∈ keys) ∨ p.Watches other key :=
  exists_watch_iff

/-- The end of a subscription takes facts from those that its sink watches. -/
theorem watches_unsubscribe_iff :
    (p.unsubscribe sink keys).Watches other key ↔
      p.Watches other key ∧ ¬ (sink = other ∧ key ∈ keys) := by
  simp only [Watches, unsubscribe, List.mem_map, exists_exists_and_eq_and]
  rw [← exists_and_right]
  refine exists_congr fun w => ?_
  rw [and_assoc]
  refine and_congr_right fun _ => ?_
  split
  · next hsame =>
    rw [mem_foldl_erase, hsame]
    tauto
  · next hne =>
    have hother : w.sink = other → ¬ (sink = other ∧ key ∈ keys) :=
      fun hsink hboth => hne (hsink.trans hboth.1.symm)
    tauto

/-- A notification changes nothing for an open sink. -/
theorem watches_notify_iff {isOpen : SinkId → Bool} (hopen : isOpen sink = true)
    (news : FactUpdate) : (p.notify isOpen news).1.Watches sink key ↔ p.Watches sink key := by
  simp only [Watches, notify, List.mem_filter, and_assoc]
  refine exists_congr fun w => and_congr_right fun _ => and_iff_right_of_imp ?_
  rintro ⟨rfl, -⟩
  exact hopen

/-- Forgetting a fact that is stored is news. -/
theorem unset_of_some {isOpen : SinkId → Bool} {value : FactValue} (h : p.get? key = some value) :
    p.unset isOpen key = notify isOpen { p with facts := p.facts.erase key } ⟨key, none⟩ := by
  simp only [unset, h]

/-- Nothing happens when a fact is to be forgotten that is not stored. -/
theorem unset_of_none {isOpen : SinkId → Bool} (h : p.get? key = none) :
    p.unset isOpen key = (p, []) := by
  simp only [unset, h]

/-! ## One entry for each sink -/

/-- No sink is listed twice. -/
def Merged (p : MemoryProvider) : Prop :=
  (p.watchers.map Watcher.sink).Nodup

theorem map_sink_watch (sink : SinkId) (keys : List FactKey) (watchers : List Watcher) :
    (watch sink keys watchers).map Watcher.sink =
      if sink ∈ watchers.map Watcher.sink then watchers.map Watcher.sink
      else watchers.map Watcher.sink ++ [sink] := by
  induction watchers with
  | nil => rfl
  | cons first watchers ih =>
    unfold watch
    split
    · next hsink => simp [hsink]
    · next hsink =>
      have hne : sink ≠ first.sink := fun heq => hsink heq.symm
      rw [List.map_cons, ih]
      by_cases hmem : sink ∈ watchers.map Watcher.sink
      · simp [hmem]
      · simp [hmem, hne]

namespace Merged

theorem subscribe (h : p.Merged) (sink : SinkId) (keys : List FactKey) :
    (p.subscribe sink keys).Merged := by
  unfold Merged MemoryProvider.subscribe
  rw [map_sink_watch]
  split
  · exact h
  · next hnew => exact List.nodup_append.2 ⟨h, by simp, by simpa using hnew⟩

theorem unsubscribe (h : p.Merged) (sink : SinkId) (keys : List FactKey) :
    (p.unsubscribe sink keys).Merged := by
  have hsinks : (p.unsubscribe sink keys).watchers.map Watcher.sink =
      p.watchers.map Watcher.sink := by
    rw [MemoryProvider.unsubscribe, List.map_map]
    refine List.map_congr_left fun w _ => ?_
    rw [Function.comp_apply]
    split <;> rfl
  unfold Merged
  rw [hsinks]
  exact h

theorem notify (h : p.Merged) (isOpen : SinkId → Bool) (news : FactUpdate) :
    (p.notify isOpen news).1.Merged :=
  h.sublist (List.filter_sublist.map Watcher.sink)

end Merged

/-- One entry at most is for the sink and has the fact. -/
theorem map_filter_watchers {watchers : List Watcher} (h : (watchers.map Watcher.sink).Nodup)
    (news : FactUpdate) :
    ((watchers.filter fun w => w.sink = sink ∧ news.key ∈ w.keys).map fun _ => news) =
      if ∃ w ∈ watchers, w.sink = sink ∧ news.key ∈ w.keys then [news] else [] := by
  induction watchers with
  | nil => rfl
  | cons first watchers ih =>
    rw [List.map_cons, List.nodup_cons] at h
    by_cases hfirst : first.sink = sink ∧ news.key ∈ first.keys
    · have hrest : (watchers.filter fun w => w.sink = sink ∧ news.key ∈ w.keys) = [] := by
        refine List.filter_eq_nil_iff.2 fun w hw hboth => h.1 ?_
        rw [hfirst.1, ← (of_decide_eq_true hboth).1]
        exact List.mem_map_of_mem hw
      rw [List.filter_cons_of_pos (by simpa using hfirst), hrest,
        if_pos ⟨first, List.mem_cons_self, hfirst⟩]
      rfl
    · rw [List.filter_cons_of_neg (by simpa using hfirst), ih h.2]
      simp only [List.exists_mem_cons_iff, hfirst, false_or]

/-- An open sink is sent the news once if it watches the fact, and not at all otherwise. -/
theorem Merged.notify_delivers (h : p.Merged) {isOpen : SinkId → Bool}
    (hopen : isOpen sink = true) (news : FactUpdate) :
    ((p.notify isOpen news).2.filter fun d => d.sink = sink).map Delivery.news =
      if p.Watches sink news.key then [news] else [] := by
  have hfilter : ((p.notify isOpen news).2.filter fun d => d.sink = sink).map Delivery.news =
      (p.watchers.filter fun w => w.sink = sink ∧ news.key ∈ w.keys).map fun _ => news := by
    simp only [MemoryProvider.notify, List.filter_map, List.map_map, List.filter_filter]
    congr 1
    refine List.filter_congr fun w _ => ?_
    rw [Bool.eq_iff_iff]
    by_cases hsink : w.sink = sink
    · simp [hsink, hopen]
    · simp [hsink]
  rw [hfilter]
  exact map_filter_watchers h news

end MemoryProvider
end Mandate
