import Spakky.Glob
import Spakky.Redis.Footprint

/-!
The names under which a cache keeps values, locks and tag indexes. All three
are the prefix followed by a text, and a user key may begin with the text that
marks a lock or an index. `clear` finds the names of a cache by a glob pattern
that is made from the prefix without escaping it.
-/

namespace Spakky.Redis

open KeyValue Glob Machine List

/-- The ranges of a class behind its opening bracket, and the pattern behind the
class. A class that is not closed goes on to the end. -/
def parseClass : List Char → List (Char × Char) × List Char
  | [] => ([], [])
  | '\\' :: c :: rest => ((c, c) :: (parseClass rest).1, (parseClass rest).2)
  | ']' :: rest => ([], rest)
  | low :: '-' :: high :: rest => ((low, high) :: (parseClass rest).1, (parseClass rest).2)
  | c :: rest => ((c, c) :: (parseClass rest).1, (parseClass rest).2)

/-- The ends of a range may stand in either order. -/
def inClass (ranges : List (Char × Char)) (c : Char) : Bool :=
  ranges.any fun range =>
    decide (range.1 ≤ c ∧ c ≤ range.2) || decide (range.2 ≤ c ∧ c ≤ range.1)

/-- The glob patterns of `SCAN MATCH`, read from left to right; every round uses
up at least one symbol. -/
def parsePattern : Nat → List Char → List (Token Char)
  | 0, _ => []
  | _ + 1, [] => []
  | rounds + 1, '*' :: rest => .many :: parsePattern rounds rest
  | rounds + 1, '?' :: rest => .one (fun _ => true) :: parsePattern rounds rest
  | rounds + 1, '[' :: '^' :: rest =>
    .one (fun c => !inClass (parseClass rest).1 c) :: parsePattern rounds (parseClass rest).2
  | rounds + 1, '[' :: rest =>
    .one (inClass (parseClass rest).1) :: parsePattern rounds (parseClass rest).2
  | rounds + 1, '\\' :: c :: rest => .one (· == c) :: parsePattern rounds rest
  | rounds + 1, c :: rest => .one (· == c) :: parsePattern rounds rest

/-- Over characters; Redis has bytes, which differ under `?` and classes beyond ASCII. -/
def patternOf (pattern : String) : List (Token Char) :=
  parsePattern pattern.toList.length pattern.toList

section Clear

variable {π : Type}

/-- `clear` -/
def clear (config : RedisCacheConfig) (store : Store String π) : Store String π :=
  store.delete (store.keys.filter fun name =>
    accepts (patternOf (config.keyPrefix ++ "*")) name.toList)

variable (config : RedisCacheConfig)

theorem live_clear (store : Store String π) (name : String) :
    (clear config store).live name =
      if accepts (patternOf (config.keyPrefix ++ "*")) name.toList = true then none
      else store.live name := by
  rw [clear, Store.live_delete]
  by_cases hacc : accepts (patternOf (config.keyPrefix ++ "*")) name.toList = true
  · rw [if_pos hacc]
    split
    · rfl
    · rename_i hkept
      -- `SCAN` lists what is live
      by_contra hlive
      apply hkept
      rw [mem_filter]
      exact ⟨Store.mem_keys.mpr hlive, hacc⟩
  · rw [if_neg hacc, if_neg]
    intro hmem
    exact hacc (mem_filter.mp hmem).2

/-- Every name that begins with the prefix is cleared exactly if the pattern is
open-ended and accepts the prefix. -/
theorem clears_own_iff [Inhabited π] :
    (∀ (store : Store String π) (text : String),
      (clear config store).live (redisKey config text) = none) ↔
      accepts (patternOf (config.keyPrefix ++ "*")) config.keyPrefix.toList = true ∧
        OpenEnded (patternOf (config.keyPrefix ++ "*")) := by
  rw [← accepts_extensions_iff]
  constructor
  · intro hcleared more
    have hnone := hcleared (.put ⟨0, []⟩ (redisKey config (.ofList more))
      ⟨.string default, none⟩) (.ofList more)
    rw [live_clear, Store.live_put_none] at hnone
    by_contra href
    rw [if_neg] at hnone
    · cases hnone
    · simpa [redisKey] using href
  · intro hall store text
    rw [live_clear, if_pos]
    simpa [redisKey] using hall text.toList

/-- No name that begins with another prefix is cleared exactly if the pattern
meets no such name. -/
theorem clears_no_other_iff [Inhabited π] (other : RedisCacheConfig) :
    (∀ (store : Store String π) (text : String),
      (clear config store).live (redisKey other text) = store.live (redisKey other text)) ↔
      ¬ Meets (patternOf (config.keyPrefix ++ "*")) other.keyPrefix.toList := by
  rw [meets_iff]
  constructor
  · rintro hkept ⟨more, hacc⟩
    have hsame := hkept (.put ⟨0, []⟩ (redisKey other (.ofList more))
      ⟨.string default, none⟩) (.ofList more)
    rw [live_clear, Store.live_put_none, if_pos] at hsame
    · cases hsame
    · simpa [redisKey] using hacc
  · intro hnone store text
    rw [live_clear, if_neg]
    intro hacc
    exact hnone ⟨text.toList, by simpa [redisKey] using hacc⟩

end Clear

section Disjoint

variable {κ α ε π : Type}

/-- The next command of the event is about the name. -/
def Touches (config : RedisCacheConfig) (state : Clients κ α ε π) (name : String) :
    ClientEvent κ α ε π → Prop
  | .runs client _ => name ∈ names config (state.phase client)
  | _ => False

/-- No sequence of calls on a user key, whatever its interleaving, has a command
about the name. -/
def NeverTouches (κ ε : Type) [DecidableEq κ] (config : RedisCacheConfig) (runtime : Runtime α π)
    (key : String) (allowed : String → Prop) (name : String) : Prop :=
  ∀ (store : Store String π) (events : List (ClientEvent κ α ε π)),
    IndexesOnly config key store → (∀ event ∈ events, event.IsOn key allowed) →
      Along (Clients.step config runtime) (fun state event => ¬ Touches config state name event)
        (Clients.initial store) events

/-- The names of the value of one key, the lock of another one and the index of
a tag differ, calls on the one key leave the lock, the value and the index
alone, and `clear` deletes what belongs to this cache and nothing that belongs
to the other one. -/
structure KeySpacesDisjoint (κ ε : Type) [DecidableEq κ] (config other : RedisCacheConfig)
    (runtime : Runtime α π) (key key' tag : String) : Prop where
  value_lock : redisKey config key ≠ lockKey config key'
  value_index : redisKey config key ≠ tagKey config tag
  lock_index : lockKey config key' ≠ tagKey config tag
  leaves_lock : key' ≠ key →
    NeverTouches κ ε config runtime key (fun _ => True) (lockKey config key')
  leaves_value : key' ≠ key →
    NeverTouches κ ε config runtime key (fun _ => True) (redisKey config key')
  leaves_index : NeverTouches κ ε config runtime key (· ≠ tag) (tagKey config tag)
  clears_own : ∀ (store : Store String π) (text : String),
    (clear config store).live (redisKey config text) = none
  clears_no_other : ∀ (store : Store String π) (text : String),
    (clear config store).live (redisKey other text) = store.live (redisKey other text)

/-- Neither key begins with a marker in front of the other one or of a tag, and
the pattern made from the prefix is open-ended, accepts the prefix, and meets
nothing that begins with the other prefix. -/
structure Unmarked (config other : RedisCacheConfig) (key key' tag : String) : Prop where
  not_lock : key ≠ "__lock__:" ++ key'
  not_index : key ≠ "__tag__:" ++ tag
  other_not_lock : key' ≠ key → key' ≠ "__lock__:" ++ key
  other_not_index : key' ≠ key → ∀ tag', key' ≠ "__tag__:" ++ tag'
  accepts_own : accepts (patternOf (config.keyPrefix ++ "*")) config.keyPrefix.toList = true
  open_ended : OpenEnded (patternOf (config.keyPrefix ++ "*"))
  meets_no_other : ¬ Meets (patternOf (config.keyPrefix ++ "*")) other.keyPrefix.toList

variable [DecidableEq κ] {config : RedisCacheConfig} {runtime : Runtime α π} {key : String}
  {allowed : String → Prop}

theorem along_onKey {Good : Clients κ α ε π → ClientEvent κ α ε π → Prop}
    (hgood : ∀ state event, state.OnKey config key allowed → Good state event)
    {state : Clients κ α ε π} (hon : state.OnKey config key allowed)
    {events : List (ClientEvent κ α ε π)} (hevs : ∀ event ∈ events, event.IsOn key allowed) :
    Along (Clients.step config runtime) Good state events := by
  induction events generalizing state with
  | nil => trivial
  | cons event _ ih =>
    refine ⟨hgood state event hon, ?_⟩
    apply ih
    · exact hon.step state event (hevs event (.head _))
    · intro later hmem
      exact hevs later (.tail _ hmem)

/-- Calls on a key are never about a name that is not its value, its lock or the
index of a tag they may name. -/
theorem neverTouches_of_ne {name : String} (hvalue : name ≠ redisKey config key)
    (hlock : name ≠ lockKey config key) (hindex : ∀ tag, allowed tag → name ≠ tagKey config tag) :
    NeverTouches κ ε config runtime key allowed name := by
  intro store events honly hevs
  have hinitial : (Clients.initial (κ := κ) (α := α) (ε := ε) store).OnKey config key allowed :=
    ⟨fun _ => trivial, honly⟩
  refine along_onKey ?_ hinitial hevs
  intro state event hon htouches
  cases event with
  | runs client =>
    rcases (hon.phases client).names htouches with hsame | hsame | ⟨tag, htag, hsame⟩
    · exact hvalue hsame
    · exact hlock hsame
    · exact hindex tag htag hsame
  | tick | calls | produces | dies => exact htouches

theorem indexesOnly_empty (config : RedisCacheConfig) (key : String) :
    IndexesOnly config key (⟨0, []⟩ : Store String π) := by
  intro name member hmem
  cases hmem

/-- The second command of a `get_or_set` that finds no value is about the lock. -/
theorem NeverTouches.ne_lockKey [Inhabited κ] [Inhabited π] {name : String}
    (hnever : NeverTouches κ ε config runtime key allowed name) : name ≠ lockKey config key := by
  rintro rfl
  have halong := hnever ⟨0, []⟩
    [.calls default (.getOrSet { key := key }), .runs default default, .runs default default]
    (indexesOnly_empty config key) (by simp [ClientEvent.IsOn, Call.IsOn])
  obtain ⟨_, _, hthird, _⟩ := halong
  apply hthird
  simp [Touches, Clients.step, Clients.initial, Clients.calls, Clients.enters, Clients.runs,
    Clients.lookup, Store.get, Store.live, names]

/-- The first command of an eviction is about the index of its first tag. -/
theorem NeverTouches.ne_tagKey [Inhabited κ] [Inhabited π] {name : String}
    (hnever : NeverTouches κ ε config runtime key allowed name) {tag : String}
    (htag : allowed tag) : name ≠ tagKey config tag := by
  rintro rfl
  have halong := hnever ⟨0, []⟩ [.calls default (.evictTags [tag]), .runs default default]
    (indexesOnly_empty config key) (by simpa [ClientEvent.IsOn, Call.IsOn] using htag)
  obtain ⟨_, hsnd, _⟩ := halong
  apply hsnd
  simp [Touches, Clients.step, Clients.initial, Clients.calls, Clients.enters, names]

/-- The key spaces are disjoint exactly if no key begins with a marker in front of
the other key or of a tag, and the pattern of the prefix matches what begins
with it and nothing that begins with the other prefix. -/
theorem keySpacesDisjoint_iff_unmarked [Inhabited κ] [Inhabited π] (config other : RedisCacheConfig)
    (runtime : Runtime α π) (key key' tag : String) :
    KeySpacesDisjoint κ ε config other runtime key key' tag ↔
      Unmarked config other key key' tag := by
  constructor
  · intro hdisjoint
    obtain ⟨haccepts, hopen⟩ := (clears_own_iff config).mp hdisjoint.clears_own
    refine ⟨?_, ?_, ?_, ?_, haccepts, hopen, ?_⟩
    · exact fun hsame => hdisjoint.value_lock (redisKey_eq_lockKey_iff.mpr hsame)
    · exact fun hsame => hdisjoint.value_index (redisKey_eq_tagKey_iff.mpr hsame)
    · intro hother hsame
      exact (hdisjoint.leaves_value hother).ne_lockKey (redisKey_eq_lockKey_iff.mpr hsame)
    · intro hother tag' hsame
      exact (hdisjoint.leaves_value hother).ne_tagKey trivial
        (redisKey_eq_tagKey_iff.mpr hsame)
    · exact (clears_no_other_iff config other).mp hdisjoint.clears_no_other
  · intro hunmarked
    have hindex : redisKey config key ≠ tagKey config tag := by
      exact fun hsame => hunmarked.not_index (redisKey_eq_tagKey_iff.mp hsame)
    have hlock : redisKey config key ≠ lockKey config key' := by
      exact fun hsame => hunmarked.not_lock (redisKey_eq_lockKey_iff.mp hsame)
    refine ⟨hlock, hindex, lockKey_ne_tagKey key' tag, ?_, ?_, ?_, ?_, ?_⟩
    · intro hother
      apply neverTouches_of_ne hlock.symm
      · exact fun hsame => hother (lockKey_inj.mp hsame)
      · exact fun tag' _ => lockKey_ne_tagKey key' tag'
    · intro hother
      apply neverTouches_of_ne
      · exact fun hsame => hother (redisKey_inj.mp hsame)
      · exact fun hsame => hunmarked.other_not_lock hother (redisKey_eq_lockKey_iff.mp hsame)
      · exact fun tag' _ hsame =>
          hunmarked.other_not_index hother tag' (redisKey_eq_tagKey_iff.mp hsame)
    · apply neverTouches_of_ne hindex.symm
      · exact (lockKey_ne_tagKey key tag).symm
      · exact fun tag' hallowed hsame => hallowed (tagKey_inj.mp hsame).symm
    · exact (clears_own_iff config).mpr ⟨hunmarked.accepts_own, hunmarked.open_ended⟩
    · exact (clears_no_other_iff config other).mpr hunmarked.meets_no_other

/-- The user key `__lock__:order` is where the lock of the user key `order` is. -/
theorem redisKey_default_eq_lockKey :
    redisKey {} "__lock__:order" = lockKey {} "order" ∧
      ¬ KeySpacesDisjoint Unit Unit {} { keyPrefix := "other:" } unitRuntime
        "__lock__:order" "order" "stock" := by
  have hsame : redisKey {} "__lock__:order" = lockKey {} "order" := by decide
  exact ⟨hsame, fun hdisjoint => hdisjoint.value_lock hsame⟩

end Disjoint

end Spakky.Redis
