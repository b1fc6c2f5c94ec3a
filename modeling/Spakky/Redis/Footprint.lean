import Spakky.Redis.Cache

/-!
What the commands of a call are about. Each names the entries it reads and
changes, and depends on nothing else. The commands of calls on one user key are
about its value, its lock, and the indexes of the tags that were named.
-/

namespace Spakky.Redis

open KeyValue Machine List

section Keys

variable (config : RedisCacheConfig) (key : String)

/-- A lock is the value of the key that has the marker in front. -/
theorem lockKey_eq : lockKey config key = redisKey config ("__lock__:" ++ key) :=
  String.append_assoc

theorem tagKey_eq (tag : String) : tagKey config tag = redisKey config ("__tag__:" ++ tag) :=
  String.append_assoc

variable {config} {other : String}

theorem redisKey_inj {key : String} : redisKey config key = redisKey config other ↔ key = other :=
  String.append_right_inj config.keyPrefix

theorem redisKey_eq_lockKey_iff {key : String} :
    redisKey config key = lockKey config other ↔ key = "__lock__:" ++ other := by
  rw [lockKey_eq, redisKey_inj]

theorem redisKey_eq_tagKey_iff {key tag : String} :
    redisKey config key = tagKey config tag ↔ key = "__tag__:" ++ tag := by
  rw [tagKey_eq, redisKey_inj]

theorem lockKey_inj {key : String} : lockKey config key = lockKey config other ↔ key = other := by
  exact String.append_right_inj _

theorem tagKey_inj {tag : String} : tagKey config tag = tagKey config other ↔ tag = other := by
  exact String.append_right_inj _

theorem lockKey_ne_tagKey (tag : String) : lockKey config key ≠ tagKey config tag := by
  rw [lockKey_eq, tagKey_eq]
  intro hsame
  have hchars := congrArg String.toList (redisKey_inj.mp hsame)
  simp at hchars

theorem lockKey_ne_redisKey : lockKey config key ≠ redisKey config key := by
  intro hsame
  have hkey := redisKey_eq_lockKey_iff.mp hsame.symm
  have hlen := congrArg String.length hkey
  rw [String.length_append] at hlen
  have hmarker : "__lock__:".length = 9 := rfl
  omega

end Keys

section Footprint

variable {α ε : Type} (config : RedisCacheConfig)

/-- The names the next command of a call is about. -/
def names : Phase α ε → List String
  | .idle | .queueing _ | .waiting _ _ => []
  | .getting key | .setting key _ _ | .deleting key | .storing key _ _ _ => [redisKey config key]
  | .tagging _ _ _ rest | .reading _ rest _ _ => (rest.take 1).map (tagKey config)
  | .evicting tags keys _ => keys ++ tags.map (tagKey config)
  | .looking call | .polling call _ => [redisKey config call.key]
  | .acquiring call | .reacquiring call _ => [lockKey config call.key]
  | .locked call _ .check | .locked call _ (.store _) => [redisKey config call.key]
  | .locked _ _ .produce => []
  | .locked _ _ (.tag _ rest) => (rest.take 1).map (tagKey config)
  | .locked call _ (.release _) => [lockKey config call.key]

end Footprint

section OneKey

variable {κ α ε π : Type} (config : RedisCacheConfig) (key : String) (allowed : String → Prop)

/-- A call on one user key. The tags it may name are given. -/
def Call.IsOn : Call α → Prop
  | .get other | .set other _ _ | .delete other => other = key
  | .setWithTags other _ _ tags => other = key ∧ ∀ tag ∈ tags, allowed tag
  | .evictTags tags => ∀ tag ∈ tags, allowed tag
  | .getOrSet call => call.key = key ∧ ∀ tag ∈ call.tags, allowed tag

def ClientEvent.IsOn : ClientEvent κ α ε π → Prop
  | .calls _ call => call.IsOn key allowed
  | _ => True

def Population.IsOn (call : Population) : Prop := call.key = key ∧ ∀ tag ∈ call.tags, allowed tag

/-- Where a client may be that makes such calls only. -/
def Phase.IsOn : Phase α ε → Prop
  | .idle => True
  | .getting other | .setting other _ _ | .deleting other => other = key
  | .storing other _ _ tags => other = key ∧ ∀ tag ∈ tags, allowed tag
  | .tagging other _ _ rest => other = key ∧ ∀ tag ∈ rest, allowed tag
  | .reading tags rest keys _ =>
    (∀ tag ∈ tags, allowed tag) ∧ (∀ tag ∈ rest, allowed tag) ∧
      ∀ name ∈ keys, name = redisKey config key
  | .evicting tags keys _ => (∀ tag ∈ tags, allowed tag) ∧ ∀ name ∈ keys, name = redisKey config key
  | .looking call | .acquiring call | .queueing call | .waiting call _ | .polling call _ |
      .reacquiring call _ => call.IsOn key allowed
  | .locked call _ (.tag _ rest) => call.IsOn key allowed ∧ ∀ tag ∈ rest, allowed tag
  | .locked call _ _ => call.IsOn key allowed

/-- The sets of a store list no other name than that of the key. -/
def IndexesOnly (store : Store String π) : Prop :=
  ∀ name, ∀ member ∈ store.members name, member = redisKey config key

variable {config key allowed}

theorem Phase.IsOn.names {phase : Phase α ε} (hphase : phase.IsOn config key allowed)
    {name : String} (hname : name ∈ names config phase) :
    name = redisKey config key ∨ name = lockKey config key ∨
      ∃ tag, allowed tag ∧ name = tagKey config tag := by
  have hfirst : ∀ {rest : List String}, (∀ tag ∈ rest, allowed tag) →
      name ∈ (rest.take 1).map (tagKey config) → ∃ tag, allowed tag ∧ name = tagKey config tag := by
    intro rest hall hmem
    obtain ⟨tag, htag, rfl⟩ := mem_map.mp hmem
    exact ⟨tag, hall tag (mem_of_mem_take htag), rfl⟩
  cases phase with
  | idle | queueing | waiting => cases hname
  | getting other | deleting other | setting other =>
    exact .inl (by rw [mem_singleton.mp hname, show other = key from hphase])
  | storing | looking | polling => exact .inl (by rw [mem_singleton.mp hname, hphase.1])
  | tagging => exact .inr (.inr (hfirst hphase.2 hname))
  | reading => exact .inr (.inr (hfirst hphase.2.1 hname))
  | evicting =>
    rcases mem_append.mp hname with hkey | htag
    · exact .inl (hphase.2 name hkey)
    · obtain ⟨tag, hmem, rfl⟩ := mem_map.mp htag
      exact .inr (.inr ⟨tag, hphase.1 tag hmem, rfl⟩)
  | acquiring | reacquiring => exact .inr (.inl (by rw [mem_singleton.mp hname, hphase.1]))
  | locked _ _ stage =>
    cases stage with
    | check | store => exact .inl (by rw [mem_singleton.mp hname, hphase.1])
    | produce => cases hname
    | tag => exact .inr (.inr (hfirst hphase.2 hname))
    | release => exact .inr (.inl (by rw [mem_singleton.mp hname, hphase.1]))

namespace Clients

/-- All clients are within calls on one user key, and nothing else is indexed. -/
structure OnKey (config : RedisCacheConfig) (key : String) (allowed : String → Prop)
    (state : Clients κ α ε π) : Prop where
  phases : ∀ client, (state.phase client).IsOn config key allowed
  indexes : IndexesOnly config key state.store

variable {state : Clients κ α ε π}

section

variable (hon : state.OnKey config key allowed)
include hon

theorem OnKey.adds {tag : String} {store : Store String π}
    (hadd : state.store.addSetMembers (tagKey config tag) [redisKey config key] = .ok store) :
    IndexesOnly config key store := by
  intro name member hmem
  rcases (Store.mem_members_addSetMembers hadd).mp hmem with hold | ⟨_, hnew⟩
  · exact hon.indexes name member hold
  · exact mem_singleton.mp hnew

theorem OnKey.puts (sent : π × Option Nat) :
    (state.puts config key sent).OnKey config key allowed := by
  refine ⟨hon.phases, ?_⟩
  intro name member hmem
  exact hon.indexes name member (Store.mem_members_set hmem)

theorem OnKey.deletes (deleted : List String) :
    IndexesOnly config key (state.store.delete deleted) := by
  intro name member hmem
  exact hon.indexes name member (Store.mem_members_delete hmem)

variable [DecidableEq κ]

theorem OnKey.enters (client : κ) {phase : Phase α ε} (hphase : phase.IsOn config key allowed) :
    ∀ other, ((state.enters client phase).phase other).IsOn config key allowed :=
  (Function.forall_update_iff state.phase fun _ phase => phase.IsOn config key allowed).mpr
    ⟨hphase, fun other _ => hon.phases other⟩

theorem OnKey.tagsNext (client : κ) (write : Nat)
    (tags : List String) {rest : List String} (hrest : ∀ tag ∈ rest, allowed tag) :
    (state.tagsNext client key write tags rest).OnKey config key allowed := by
  cases rest with
  | nil => exact ⟨hon.enters client trivial, hon.indexes⟩
  | cons => exact ⟨hon.enters client ⟨rfl, hrest⟩, hon.indexes⟩

theorem OnKey.acquires (client : κ) {call : Population} (hcall : call.IsOn key allowed) (token : π)
    {otherwise : Phase α ε} (hotherwise : otherwise.IsOn config key allowed) :
    (state.acquires config client call token otherwise).OnKey config key allowed := by
  rw [Clients.acquires]
  split
  · rename_i store hset
    have htrue : (state.store.setIfAbsent (lockKey config call.key) token lockTtlMs).1 = true := by
      rw [hset]
    have hstore : store = state.store.set (lockKey config call.key) token (some lockTtlMs) := by
      rw [← (Store.setIfAbsent_true htrue).2, hset]
    subst hstore
    refine ⟨hon.enters client hcall, ?_⟩
    intro name member hmem
    exact hon.indexes name member (Store.mem_members_set hmem)
  · exact ⟨hon.enters client hotherwise, hon.indexes⟩

variable {runtime : Runtime α π}

theorem OnKey.runsLocked (client : κ) {call : Population} {since : Nat} {stage : Locked α ε}
    (hphase : (Phase.locked call since stage).IsOn config key allowed) :
    (state.runsLocked config runtime client call since stage).OnKey config key allowed := by
  have hnext : ∀ value, ∀ rest : List String, call.IsOn key allowed →
      (∀ tag ∈ rest, allowed tag) →
      (.locked call since (afterTags value rest) : Phase α ε).IsOn config key allowed := by
    intro value rest hcall hrest
    cases rest with
    | nil => exact hcall
    | cons => exact ⟨hcall, hrest⟩
  cases stage with
  | check =>
    simp only [Clients.runsLocked]
    split
    all_goals exact ⟨hon.enters client hphase, hon.indexes⟩
  | produce => exact hon
  | store value =>
    simp only [Clients.runsLocked]
    split
    · exact ⟨hon.enters client hphase, hon.indexes⟩
    · rename_i sent hsent
      have hkey : call.key = key := hphase.1
      rw [hkey]
      have hput := hon.puts sent
      exact ⟨hput.enters client (hnext value call.tags hphase hphase.2), hput.indexes⟩
  | tag value rest =>
    cases rest with
    | nil => exact ⟨hon.enters client hphase.1, hon.indexes⟩
    | cons tag rest =>
      simp only [Clients.runsLocked]
      split
      · exact ⟨hon.enters client hphase.1, hon.indexes⟩
      · rename_i store hadd
        rw [hphase.1.1] at hadd
        have hrest : ∀ tag ∈ rest, allowed tag :=
          fun tag hmem => hphase.2 tag (.tail _ hmem)
        exact ⟨hon.enters client (hnext value rest hphase.1 hrest), hon.adds hadd⟩
  | release => exact ⟨hon.enters client trivial, hon.deletes _⟩

theorem OnKey.runs (client : κ) (token : π) :
    (state.runs config runtime client token).OnKey config key allowed := by
  have hat := hon.phases client
  rw [Clients.runs]
  generalize state.phase client = phase at hat
  cases phase with
  | idle => exact hon
  | getting => exact ⟨hon.enters client trivial, hon.indexes⟩
  | setting other value ttl =>
    have hkey : other = key := hat
    dsimp only
    split
    · exact ⟨hon.enters client trivial, hon.indexes⟩
    · rename_i sent hsent
      rw [hkey]
      exact ⟨(hon.puts sent).enters client trivial, (hon.puts sent).indexes⟩
  | deleting | evicting => exact ⟨hon.enters client trivial, hon.deletes _⟩
  | storing _ _ _ tags =>
    obtain ⟨rfl, htags⟩ := hat
    dsimp only
    split
    · exact ⟨hon.enters client trivial, hon.indexes⟩
    · exact (hon.puts _).tagsNext client _ tags htags
  | tagging other write tags rest =>
    obtain ⟨rfl, hrest⟩ := hat
    cases rest with
    | nil => exact hon.tagsNext client write tags hrest
    | cons tag =>
      dsimp only
      split
      · exact ⟨hon.enters client trivial, hon.indexes⟩
      · rename_i store hadd
        have hadded : OnKey config other allowed { state with store := store } :=
          ⟨hon.phases, hon.adds hadd⟩
        apply hadded.tagsNext client write tags
        intro tag hmem
        exact hrest tag (.tail _ hmem)
  | reading _ rest keys =>
    obtain ⟨htags, hrest, hkeys⟩ := hat
    cases rest with
    | nil => exact ⟨hon.enters client ⟨htags, hkeys⟩, hon.indexes⟩
    | cons tag rest =>
      dsimp only
      split
      · exact ⟨hon.enters client trivial, hon.indexes⟩
      · rename_i listed hread
        have hlisted := Store.setMembers_eq hread
        have hfound : ∀ name ∈ keys ∪ listed, name = redisKey config key := by
          intro name hmem
          rcases mem_union_iff.mp hmem with hold | hnew
          · exact hkeys name hold
          · exact hon.indexes _ name (hlisted ▸ hnew)
        have hlater : ∀ tag ∈ rest, allowed tag :=
          fun tag hmem => hrest tag (.tail _ hmem)
        cases rest with
        | nil => exact ⟨hon.enters client ⟨htags, hfound⟩, hon.indexes⟩
        | cons => exact ⟨hon.enters client ⟨htags, hlater, hfound⟩, hon.indexes⟩
  | looking | polling =>
    dsimp only
    split
    · exact ⟨hon.enters client trivial, hon.indexes⟩
    · exact ⟨hon.enters client trivial, hon.indexes⟩
    · exact ⟨hon.enters client hat, hon.indexes⟩
  | acquiring | reacquiring => exact hon.acquires client hat token hat
  | queueing => exact ⟨hon.enters client hat, hon.indexes⟩
  | waiting =>
    dsimp only
    split
    · exact ⟨hon.enters client hat, hon.indexes⟩
    · exact ⟨hon.enters client trivial, hon.indexes⟩
  | locked => exact hon.runsLocked client hat

theorem OnKey.calls (client : κ) {call : Call α}
    (hcall : call.IsOn key allowed) : (state.calls client call).OnKey config key allowed := by
  cases call with
  | get | set | delete | setWithTags | getOrSet => exact ⟨hon.enters client hcall, hon.indexes⟩
  | evictTags tags =>
    cases tags with
    | nil => exact hon
    | cons =>
      have hnone : ∀ name ∈ ([] : List String), name = redisKey config key := by simp
      exact ⟨hon.enters client ⟨hcall, hcall, hnone⟩, hon.indexes⟩

end

variable [DecidableEq κ] {runtime : Runtime α π}

theorem OnKey.step (state : Clients κ α ε π) (event : ClientEvent κ α ε π)
    (hon : state.OnKey config key allowed) (hevent : event.IsOn key allowed) :
    (state.step config runtime event).OnKey config key allowed := by
  cases event with
  | tick =>
    refine ⟨hon.phases, ?_⟩
    intro name member hmem
    exact hon.indexes name member (Store.mem_members_advance hmem)
  | calls client =>
    simp only [Clients.step]
    split
    · exact hon.calls client hevent
    · exact hon
  | runs client token => exact hon.runs client token
  | produces client outcome =>
    simp only [Clients.step]
    split
    · rename_i call since hphase
      have hat := hon.phases client
      rw [hphase] at hat
      cases outcome with
      | ok | error => exact ⟨hon.enters client hat, hon.indexes⟩
    · exact hon
  | dies client => exact ⟨hon.enters client trivial, hon.indexes⟩

end Clients

end OneKey

end Spakky.Redis
