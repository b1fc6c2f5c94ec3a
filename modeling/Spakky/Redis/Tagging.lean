import Spakky.Redis.Footprint

/-!
`set_with_tags` and `evict_tags`. An eviction reads the indexes of its tags one
by one and deletes what they list, and the indexes themselves, by a later
command. A `SADD` in between goes to an index that is about to be deleted: the
key is then in no index, and no later eviction finds it.

The invariant follows each write from the `SADD` on: as long as it is stored,
the index lists its key, and so does every eviction that has read the index.
-/

namespace Spakky.Redis

open KeyValue Machine List Function

section Conditions

variable {κ α ε π : Type} (config : RedisCacheConfig)

/-- The name is that of an index. -/
def IsIndex (name : String) : Prop := ∃ tag, name = tagKey config tag

/-- The events of clients that call `set_with_tags` and `evict_tags` only. -/
def ClientEvent.Tags : ClientEvent κ α ε π → Prop
  | .calls _ (.setWithTags _ _ _ _) | .calls _ (.evictTags _) => True
  | .calls _ _ => False
  | _ => True

/-- The eviction has read the index of the tag, and this is what it will delete. -/
def Phase.HasRead (phase : Phase α ε) (tag : String) (keys : List String) : Prop :=
  (∃ tags rest due, phase = .reading tags rest keys due ∧ tag ∈ tags ∧ tag ∉ rest) ∨
    ∃ tags due, phase = .evicting tags keys due ∧ tag ∈ tags

namespace Clients

/-- The value of a write is what is stored under its key. -/
def Stored (state : Clients κ α ε π) (key : String) (write : Nat) : Prop :=
  state.store.live (redisKey config key) ≠ none ∧ state.writes (redisKey config key) = write

/-- No key is the name of an index, and a key that is added to an index will be
deleted by every eviction that has read this index before. -/
def AddsSafely (state : Clients κ α ε π) : ClientEvent κ α ε π → Prop
  | .calls _ (.setWithTags key _ _ _) => ¬ IsIndex config (redisKey config key)
  | .runs client _ =>
    match state.phase client with
    | .tagging key _ _ (tag :: _) =>
      ∀ other keys, (state.phase other).HasRead tag keys → redisKey config key ∈ keys
    | _ => True
  | _ => True

/-- An eviction that returns leaves none of the values that were written under one of
its tags before it was called. -/
def Evicts [DecidableEq κ] (runtime : Runtime α π) (state : Clients κ α ε π) :
    ClientEvent κ α ε π → Prop
  | .runs client token =>
    match state.phase client with
    | .evicting _ _ due => ∀ key write, (key, write) ∈ due →
        ¬ (state.runs config runtime client token).Stored config key write
    | _ => True
  | _ => True

end Clients

end Conditions

section Invariant

variable {κ α ε π : Type} (config : RedisCacheConfig)

/-- One of the writes is under the tag. -/
def Recorded (tagged : List Tagged) (key : String) (write : Nat) (tag : String) : Prop :=
  ∃ tags, ⟨key, write, tags⟩ ∈ tagged ∧ tag ∈ tags

/-- Where a client may be that calls `set_with_tags` and `evict_tags` only. -/
def Phase.Fits (writes : String → Nat) (tagged : List Tagged) : Phase α ε → Prop
  | .idle => True
  | .storing key _ _ _ => ¬ IsIndex config (redisKey config key)
  | .tagging key write _ _ =>
    ¬ IsIndex config (redisKey config key) ∧ write ≤ writes (redisKey config key)
  | .reading tags _ keys due | .evicting tags keys due =>
    (∀ name ∈ keys, ¬ IsIndex config name) ∧
      ∀ key write, (key, write) ∈ due → ∃ tag ∈ tags, Recorded tagged key write tag
  | _ => False

/-- The client has added its write to the index of the tag. -/
def Phase.Registers (key : String) (write : Nat) (tag : String) (phase : Phase α ε) : Prop :=
  ∃ tags rest, phase = .tagging key write tags rest ∧ tag ∈ tags ∧ tag ∉ rest

namespace Clients

/-- The write has been added to the index of the tag. -/
def Registered (state : Clients κ α ε π) (key : String) (write : Nat) (tag : String) : Prop :=
  Recorded state.tagged key write tag ∨ ∃ client, (state.phase client).Registers key write tag

/-- The index lists the key, and so does every eviction that has read the index. -/
def Listed (state : Clients κ α ε π) (key : String) (tag : String) : Prop :=
  redisKey config key ∈ state.store.members (tagKey config tag) ∧
    ∀ client keys, (state.phase client).HasRead tag keys → redisKey config key ∈ keys

/-- As long as a write is stored, the indexes of its tags list it. Indexes do not
expire, and they do not list indexes. -/
structure Indexed (state : Clients κ α ε π) : Prop where
  phases : ∀ client, (state.phase client).Fits config state.writes state.tagged
  members : ∀ name, ∀ member ∈ state.store.members name, ¬ IsIndex config member
  lasting : ∀ name members expiresAt,
    state.store.live name = some ⟨.set members, expiresAt⟩ → expiresAt = none
  tagged : ∀ write ∈ state.tagged, ¬ IsIndex config (redisKey config write.key) ∧
    write.write ≤ state.writes (redisKey config write.key)
  listed : ∀ key write tag, state.Registered key write tag → state.Stored config key write →
    state.Listed config key tag

end Clients

end Invariant

section Kept

variable {κ α ε π : Type} {config : RedisCacheConfig}

theorem Recorded.mono {tagged more : List Tagged} {key : String} {write : Nat} {tag : String}
    (hrec : Recorded tagged key write tag) (hmore : tagged ⊆ more) :
    Recorded more key write tag := by
  obtain ⟨tags, hmem, htag⟩ := hrec
  exact ⟨tags, hmore hmem, htag⟩

theorem Phase.Fits.mono {writes writes' : String → Nat} {tagged more : List Tagged}
    {phase : Phase α ε} (hfits : phase.Fits config writes tagged)
    (hwrites : ∀ name, writes name ≤ writes' name) (hmore : tagged ⊆ more) :
    phase.Fits config writes' more := by
  have hdue : ∀ {tags : List String} {due : List (String × Nat)},
      (∀ key write, (key, write) ∈ due → ∃ tag ∈ tags, Recorded tagged key write tag) →
      ∀ key write, (key, write) ∈ due → ∃ tag ∈ tags, Recorded more key write tag := by
    intro tags due hall key write hmem
    obtain ⟨tag, htag, hrec⟩ := hall key write hmem
    exact ⟨tag, htag, hrec.mono hmore⟩
  cases phase with
  | tagging => exact ⟨hfits.1, hfits.2.trans (hwrites _)⟩
  | reading | evicting => exact ⟨hfits.1, hdue hfits.2⟩
  | _ => exact hfits

namespace Clients

variable {state : Clients κ α ε π} {key : String} {write : Nat}

theorem mem_dueTo (hmem : (key, write) ∈ state.dueTo tags) :
    ∃ tag ∈ tags, Recorded state.tagged key write tag := by
  obtain ⟨⟨_, _, named⟩, hfil, hsame⟩ := mem_map.mp hmem
  cases hsame
  obtain ⟨htagged, hany⟩ := mem_filter.mp hfil
  obtain ⟨tag, hnamed, htag⟩ := any_eq_true.mp hany
  exact ⟨tag, contains_iff_mem.mp htag, named, htagged, hnamed⟩

section

variable (hidx : state.Indexed config)
include hidx

theorem Indexed.known {tag : String} (hreg : state.Registered key write tag) :
    ¬ IsIndex config (redisKey config key) ∧ write ≤ state.writes (redisKey config key) := by
  rcases hreg with ⟨_, hmem, _⟩ | ⟨client, _, _, hphase, _⟩
  · exact hidx.tagged _ hmem
  · have hat := hidx.phases client
    rw [hphase] at hat
    exact hat

variable {tags : List String}

theorem Indexed.members_advance (elapsed : Nat)
    (name : String) : (state.store.advance elapsed).members name = state.store.members name := by
  rw [Store.members, Store.members, Store.live_advance]
  cases hlive : state.store.live name with
  | none => rfl
  | some entry =>
    obtain ⟨content, expiresAt⟩ := entry
    cases content with
    | set members =>
      have hnever := hidx.lasting name members expiresAt hlive
      subst hnever
      rfl
    | string =>
      rw [Option.filter_some]
      split
      · rename_i hsome
        split at hsome <;> cases hsome
      · rfl

theorem Indexed.advance (elapsed : Nat) :
    ({ state with store := state.store.advance elapsed } : Clients κ α ε π).Indexed config where
  phases := hidx.phases
  members := by
    intro name member hmem
    exact hidx.members name member (Store.mem_members_advance hmem)
  lasting := by
    intro name members expiresAt hlive
    exact hidx.lasting name members expiresAt (Store.live_of_advance hlive)
  tagged := hidx.tagged
  listed := by
    rintro key write tag hreg ⟨hlive, hwrite⟩
    obtain ⟨entry, hentry⟩ := Option.ne_none_iff_exists'.mp hlive
    have hbefore : state.store.live (redisKey config key) ≠ none := by
      rw [Store.live_of_advance hentry]
      exact Option.some_ne_none entry
    have hlisted := hidx.listed key write tag hreg ⟨hbefore, hwrite⟩
    refine ⟨?_, hlisted.2⟩
    rw [hidx.members_advance]
    exact hlisted.1

/-- The `SET` of a key makes every earlier write of it one that is not stored. -/
theorem Indexed.puts (hkey : ¬ IsIndex config (redisKey config key)) (sent : π × Option Nat) :
    (state.puts config key sent).Indexed config where
  phases := by
    intro client
    refine (hidx.phases client).mono ?_ (Subset.refl _)
    intro name
    by_cases hsame : name = redisKey config key
    · subst hsame
      simp [Clients.puts]
    · simp [Clients.puts, hsame]
  members := by
    intro name member hmem
    exact hidx.members name member (Store.mem_members_set hmem)
  lasting := by
    intro name members expiresAt hlive
    by_cases hsame : name = redisKey config key
    · subst hsame
      exact absurd hlive (Store.set_ne_set _ _ members expiresAt)
    · rw [Clients.puts, Store.live_set_other hsame] at hlive
      exact hidx.lasting name members expiresAt hlive
  tagged := by
    intro write hmem
    obtain ⟨hname, hle⟩ := hidx.tagged write hmem
    refine ⟨hname, hle.trans ?_⟩
    by_cases hsame : redisKey config write.key = redisKey config key
    · simp [Clients.puts, hsame]
    · simp [Clients.puts, hsame]
  listed := by
    rintro other write tag hreg ⟨hlive, hwrite⟩
    by_cases hsame : redisKey config other = redisKey config key
    · -- the write is not the last one any more
      have hle := (hidx.known hreg).2
      simp only [Clients.puts, hsame, update_self] at hwrite hle
      omega
    · simp only [Clients.puts, update_of_ne hsame] at hwrite
      rw [Clients.puts, Store.live_set_other hsame] at hlive
      have hlisted := hidx.listed other write tag hreg ⟨hlive, hwrite⟩
      refine ⟨?_, hlisted.2⟩
      have hindex : tagKey config tag ≠ redisKey config key := fun heq => hkey ⟨tag, heq.symm⟩
      rw [Clients.puts, Store.members_congr (Store.live_set_other hindex _ _)]
      exact hlisted.1

theorem Indexed.adds {tag : String}
    (hkey : ¬ IsIndex config (redisKey config key)) {store : Store String π}
    (hadd : state.store.addSetMembers (tagKey config tag) [redisKey config key] = .ok store) :
    ({ state with store := store } : Clients κ α ε π).Indexed config where
  phases := hidx.phases
  members := by
    intro name member hmem
    rcases (Store.mem_members_addSetMembers hadd).mp hmem with hold | ⟨_, hnew⟩
    · exact hidx.members name member hold
    · rw [mem_singleton.mp hnew]
      exact hkey
  lasting := by
    intro name members expiresAt hlive
    by_cases hsame : name = tagKey config tag
    · subst hsame
      exact Store.addSetMembers_lasting hadd (hidx.lasting _) hlive
    · have hbefore : state.store.live name = some ⟨.set members, expiresAt⟩ :=
        (Store.addSetMembers_other hadd hsame).symm.trans hlive
      exact hidx.lasting name members expiresAt hbefore
  tagged := hidx.tagged
  listed := by
    rintro other write tag' hreg ⟨hlive, hwrite⟩
    have hother : redisKey config other ≠ tagKey config tag :=
      fun heq => (hidx.known hreg).1 ⟨tag, heq⟩
    rw [Store.addSetMembers_other hadd hother] at hlive
    have hlisted := hidx.listed other write tag' hreg ⟨hlive, hwrite⟩
    exact ⟨(Store.mem_members_addSetMembers hadd).mpr (.inl hlisted.1), hlisted.2⟩

variable {client : κ} {due : List (String × Nat)}

/-- The `DEL` of an eviction deletes an index together with everything in it that is
stored. -/
theorem Indexed.deletes {keys : List String}
    (hphase : state.phase client = .evicting tags keys due) :
    ({ state with store := state.store.delete (keys ++ tags.map (tagKey config)) } :
      Clients κ α ε π).Indexed config where
  phases := hidx.phases
  members := by
    intro name member hmem
    exact hidx.members name member (Store.mem_members_delete hmem)
  lasting := by
    intro name members expiresAt hlive
    rw [Store.live_delete] at hlive
    split at hlive
    · cases hlive
    · exact hidx.lasting name members expiresAt hlive
  tagged := hidx.tagged
  listed := by
    rintro key write tag hreg ⟨hlive, hwrite⟩
    rw [Store.live_delete] at hlive
    split at hlive
    · exact absurd rfl hlive
    · rename_i hkept
      have hlisted := hidx.listed key write tag hreg ⟨hlive, hwrite⟩
      refine ⟨?_, hlisted.2⟩
      have hindex : tagKey config tag ∉ keys ++ tags.map (tagKey config) := by
        rw [mem_append]
        rintro (hmem | hmem)
        · have hat := hidx.phases client
          rw [hphase] at hat
          exact hat.1 _ hmem ⟨tag, rfl⟩
        · obtain ⟨_, hdeleted, hsame⟩ := mem_map.mp hmem
          rw [tagKey_inj.mp hsame] at hdeleted
          -- the eviction has read this index and lists the key
          have hread : (state.phase client).HasRead tag keys := .inr ⟨tags, due, hphase, hdeleted⟩
          exact hkept (mem_append_left _ (hlisted.2 client keys hread))
      rw [Store.members_congr (Store.live_delete_other hindex)]
      exact hlisted.1

theorem Indexed.records (hkey : ¬ IsIndex config (redisKey config key))
    (hwrite : write ≤ state.writes (redisKey config key))
    (hlisted : state.Stored config key write → ∀ tag ∈ tags, state.Listed config key tag) :
    ({ state with tagged := state.tagged ++ [⟨key, write, tags⟩] } :
      Clients κ α ε π).Indexed config where
  phases := by
    intro client
    exact (hidx.phases client).mono (fun _ => Nat.le_refl _) (subset_append_left _ _)
  members := hidx.members
  lasting := hidx.lasting
  tagged := forall_mem_append.mpr ⟨hidx.tagged, forall_mem_singleton.mpr ⟨hkey, hwrite⟩⟩
  listed := by
    rintro other number tag (⟨named, hmem, htag⟩ | hregs) hstored
    · rcases mem_append.mp hmem with hold | hnew
      · exact hidx.listed other number tag (.inl ⟨named, hold, htag⟩) hstored
      · cases mem_singleton.mp hnew
        exact hlisted hstored tag htag
    · exact hidx.listed other number tag (.inr hregs) hstored

variable [DecidableEq κ]

theorem Indexed.enters {phase : Phase α ε} (hfits : phase.Fits config state.writes state.tagged)
    (hregs : ∀ key write tag, phase.Registers key write tag →
      state.Stored config key write → state.Listed config key tag)
    (hgathers : ∀ tag keys, phase.HasRead tag keys → ∀ key, state.Listed config key tag →
      redisKey config key ∈ keys) :
    (state.enters client phase).Indexed config where
  phases :=
    (forall_update_iff state.phase
      fun _ phase => phase.Fits config state.writes state.tagged).mpr
      ⟨hfits, fun other _ => hidx.phases other⟩
  members := hidx.members
  lasting := hidx.lasting
  tagged := hidx.tagged
  listed := by
    intro key write tag hreg hstored
    have hlisted : state.Listed config key tag := by
      rcases hreg with hrec | ⟨other, hother⟩
      · exact hidx.listed key write tag (.inl hrec) hstored
      · by_cases hsame : other = client
        · subst hsame
          simp only [Clients.enters, update_self] at hother
          exact hregs key write tag hother hstored
        · simp only [Clients.enters, update_of_ne hsame] at hother
          exact hidx.listed key write tag (.inr ⟨other, hother⟩) hstored
    refine ⟨hlisted.1, ?_⟩
    intro other keys hread
    by_cases hsame : other = client
    · subst hsame
      simp only [Clients.enters, update_self] at hread
      exact hgathers tag keys hread key hlisted
    · simp only [Clients.enters, update_of_ne hsame] at hread
      exact hlisted.2 other keys hread

theorem Indexed.enters_plain {phase : Phase α ε}
    (hfits : phase.Fits config state.writes state.tagged)
    (htagging : ∀ key write tags rest, phase ≠ .tagging key write tags rest)
    (hreading : ∀ tags rest keys due, phase ≠ .reading tags rest keys due)
    (hevicting : ∀ tags keys due, phase ≠ .evicting tags keys due) :
    (state.enters client phase).Indexed config := by
  refine hidx.enters hfits ?_ ?_
  · rintro key write tag ⟨tags, rest, hphase, _⟩
    exact absurd hphase (htagging key write tags rest)
  · rintro tag keys (⟨tags, rest, due, hphase, _⟩ | ⟨tags, due, hphase, _⟩)
    · exact absurd hphase (hreading tags rest keys due)
    · exact absurd hphase (hevicting tags keys due)

theorem Indexed.rests (client : κ) : (state.enters client .idle).Indexed config :=
  hidx.enters_plain trivial nofun nofun nofun

theorem Indexed.tagsNext {rest : List String} (hkey : ¬ IsIndex config (redisKey config key))
    (hwrite : write ≤ state.writes (redisKey config key))
    (hlisted : state.Stored config key write → ∀ tag ∈ tags, tag ∉ rest →
      state.Listed config key tag) :
    (state.tagsNext client key write tags rest).Indexed config := by
  cases rest with
  | nil =>
    have hrecords := hidx.records hkey hwrite fun hstored tag htag =>
      hlisted hstored tag htag not_mem_nil
    exact hrecords.rests client
  | cons =>
    refine hidx.enters ⟨hkey, hwrite⟩ ?_ ?_
    · rintro other number tag ⟨_, _, ⟨⟩, htag, hrest⟩ hstored
      exact hlisted hstored tag htag hrest
    · rintro tag keys (⟨_, _, _, hphase, _⟩ | ⟨_, _, hphase, _⟩)
      · cases hphase
      · cases hphase

/-- An eviction goes on with the indexes it has read. -/
theorem Indexed.reads {keys rest : List String} (hfits : (∀ name ∈ keys, ¬ IsIndex config name) ∧
      ∀ key write, (key, write) ∈ due → ∃ tag ∈ tags, Recorded state.tagged key write tag)
    (hgathers : ∀ tag ∈ tags, tag ∉ rest → ∀ key, state.Listed config key tag →
      redisKey config key ∈ keys) : (state.reads client tags keys due rest).Indexed config := by
  cases rest with
  | nil =>
    refine hidx.enters hfits ?_ ?_
    · rintro key write tag ⟨_, _, hphase, _⟩
      cases hphase
    · rintro tag gathered (⟨_, _, _, hphase, _⟩ | ⟨_, _, hphase, htag⟩) key hlisted
      · cases hphase
      · cases hphase
        exact hgathers tag htag not_mem_nil key hlisted
  | cons =>
    refine hidx.enters hfits ?_ ?_
    · rintro key write tag ⟨_, _, hphase, _⟩
      cases hphase
    · rintro tag gathered (⟨_, _, _, hphase, htag, hrest⟩ | ⟨_, _, hphase, _⟩) key hlisted
      · cases hphase
        exact hgathers tag htag hrest key hlisted
      · cases hphase

variable {runtime : Runtime α π}

theorem Indexed.runs (client : κ) (token : π)
    (hsafe : state.AddsSafely config (.runs client token)) :
    (state.runs config runtime client token).Indexed config := by
  have hat := hidx.phases client
  rw [Clients.runs]
  simp only [AddsSafely] at hsafe
  cases hphase : state.phase client with
  | idle => exact hidx
  | storing =>
    rw [hphase] at hat
    dsimp only
    split
    · exact hidx.rests client
    · rename_i sent hsent
      apply (hidx.puts hat sent).tagsNext hat (Nat.le_refl _)
      intro _ tag htag hrest
      exact absurd htag hrest
  | tagging key write tags rest =>
    rw [hphase] at hat
    cases rest with
    | nil =>
      apply hidx.tagsNext hat.1 hat.2
      intro hstored tag htag hrest
      exact hidx.listed key write tag (.inr ⟨client, tags, [], hphase, htag, hrest⟩) hstored
    | cons first rest =>
      rw [hphase] at hsafe
      dsimp only
      split
      · exact hidx.rests client
      · rename_i store hadd
        have hadds := hidx.adds hat.1 hadd
        apply hadds.tagsNext hat.1 hat.2
        intro hstored tag htag hrest
        by_cases hfirst : tag = first
        · subst hfirst
          refine ⟨?_, hsafe⟩
          rw [Store.mem_members_addSetMembers hadd]
          exact .inr ⟨rfl, mem_singleton_self _⟩
        · have hold : tag ∉ first :: rest := by simp [hfirst, hrest]
          exact hadds.listed key write tag (.inr ⟨client, tags, _, hphase, htag, hold⟩) hstored
  | reading tags rest keys due =>
    rw [hphase] at hat
    cases rest with
    | nil =>
      apply hidx.reads hat
      intro tag htag hrest key hlisted
      exact hlisted.2 client keys (.inl ⟨tags, [], due, hphase, htag, hrest⟩)
    | cons first rest =>
      dsimp only
      split
      · exact hidx.rests client
      · rename_i listed hread
        rw [Store.setMembers_eq hread]
        apply hidx.reads
        · refine ⟨?_, hat.2⟩
          intro name hmem
          rcases mem_union_iff.mp hmem with hold | hnew
          · exact hat.1 name hold
          · exact hidx.members _ name hnew
        · intro tag htag hrest key hlisted
          apply mem_union_iff.mpr
          by_cases hfirst : tag = first
          · subst hfirst
            exact .inr hlisted.1
          · have hold : tag ∉ first :: rest := by simp [hfirst, hrest]
            exact .inl (hlisted.2 client keys (.inl ⟨tags, _, due, hphase, htag, hold⟩))
  | evicting =>
    exact (hidx.deletes hphase).rests client
  | getting | setting | deleting | looking | acquiring | queueing | waiting | polling
  | reacquiring | locked =>
    rw [hphase] at hat
    exact hat.elim

theorem Indexed.calls (client : κ) {call : Call α}
    (htags : (ClientEvent.calls client call : ClientEvent κ α ε π).Tags)
    (hsafe : state.AddsSafely config (.calls client call)) :
    (state.calls client call).Indexed config := by
  cases call with
  | setWithTags => exact hidx.enters_plain hsafe nofun nofun nofun
  | evictTags tags =>
    cases tags with
    | nil => exact hidx
    | cons tag rest =>
      have hreads : (state.reads client (tag :: rest) [] (state.dueTo (tag :: rest))
          (tag :: rest)).Indexed config := by
        apply hidx.reads
        · exact ⟨nofun, fun _ _ => mem_dueTo⟩
        · intro other hother hrest
          exact absurd hother hrest
      exact hreads
  | get | set | delete | getOrSet => exact htags.elim

end

variable [DecidableEq κ] {runtime : Runtime α π}

theorem Indexed.step (state : Clients κ α ε π) (event : ClientEvent κ α ε π)
    (hidx : state.Indexed config) (htags : event.Tags) (hsafe : state.AddsSafely config event) :
    (state.step config runtime event).Indexed config := by
  cases event with
  | tick elapsed => exact hidx.advance elapsed
  | calls client =>
    simp only [Clients.step]
    split
    · exact hidx.calls client htags hsafe
    · exact hidx
  | runs client token => exact hidx.runs client token hsafe
  | produces client =>
    simp only [Clients.step]
    split
    · rename_i call since hphase
      have hat := hidx.phases client
      rw [hphase] at hat
      exact hat.elim
    · exact hidx
  | dies client => exact hidx.rests client

/-- What is due to an eviction is not stored when it returns. -/
theorem Indexed.evicts (hidx : state.Indexed config) (event : ClientEvent κ α ε π) :
    state.Evicts config runtime event := by
  cases event with
  | runs client =>
    simp only [Evicts]
    cases hphase : state.phase client with
    | evicting tags keys due =>
      have hat := hidx.phases client
      rw [hphase] at hat
      rintro key write hmem ⟨hlive, hwrite⟩
      simp only [Clients.runs, hphase] at hlive hwrite
      rw [Store.live_delete] at hlive
      split at hlive
      · exact hlive rfl
      · rename_i hkept
        obtain ⟨tag, htag, hrec⟩ := hat.2 key write hmem
        have hlisted := hidx.listed key write tag (.inl hrec) ⟨hlive, hwrite⟩
        have hread : (state.phase client).HasRead tag keys := .inr ⟨tags, due, hphase, htag⟩
        exact hkept (mem_append_left _ (hlisted.2 client keys hread))
    | _ => trivial
  | _ => trivial

/-- In a run of `set_with_tags` and `evict_tags` calls that starts without indexes,
every eviction is complete if every key is added to its indexes safely. -/
theorem evicts_tagged (config : RedisCacheConfig) (runtime : Runtime α π)
    (store : Store String π)
    (hstore : ∀ name members expiresAt, store.live name ≠ some ⟨.set members, expiresAt⟩)
    (events : List (ClientEvent κ α ε π)) (htags : ∀ event ∈ events, event.Tags)
    (hsafe : Along (Clients.step config runtime) (AddsSafely config) (initial store) events) :
    Along (Clients.step config runtime) (Evicts config runtime) (initial store) events := by
  have hinitial : (initial store : Clients κ α ε π).Indexed config := by
    refine ⟨fun _ => trivial, ?_, ?_, nofun, ?_⟩
    · intro name member hmem
      rw [Store.members] at hmem
      split at hmem
      · rename_i members expiresAt hlive
        exact absurd hlive (hstore name members expiresAt)
      · cases hmem
    · intro name members expiresAt hlive
      exact absurd hlive (hstore name members expiresAt)
    · rintro key write tag (⟨_, hmem, _⟩ | ⟨_, _, _, hphase, _⟩)
      · cases hmem
      · cases hphase
  refine .imp ?_ ?_ hinitial (hsafe.and_events htags)
  · rintro state event hindexed ⟨htag, hsafely⟩
    exact hindexed.step state event htag hsafely
  · rintro state event hindexed _
    exact hindexed.evicts event

/-- A client stores a value under a tag, and another one evicts the tag. -/
def evictionAfter : List (ClientEvent Nat Unit Unit Unit) :=
  [.calls 1 (.setWithTags "order" () none ["stock"]), .runs 1 (), .runs 1 (),
    .calls 2 (.evictTags ["stock"]), .runs 2 (), .runs 2 ()]

theorem evicts_tagged_evictionAfter :
    Along (Clients.step {} unitRuntime) (Evicts {} unitRuntime) (initial ⟨0, []⟩)
      evictionAfter := by
  refine evicts_tagged {} unitRuntime ⟨0, []⟩ nofun evictionAfter ?_ ?_
  · simp [evictionAfter, ClientEvent.Tags]
  · refine ⟨?_, trivial, ?_, trivial, trivial, trivial, trivial⟩
    · rintro ⟨_, hsame⟩
      have hfirst := congrArg (fun text => text.toList.head?) (redisKey_eq_tagKey_iff.mp hsame)
      simp at hfirst
    · -- nobody else is in a call
      have hidle : ∀ other, other ≠ 1 →
          (run (.step {} unitRuntime) (initial ⟨0, []⟩) (evictionAfter.take 2)).phase other =
            .idle := by
        intro other hother
        exact (update_of_ne hother _ _).trans (update_of_ne hother _ _)
      intro other keys hread
      by_cases hother : other = 1
      · subst hother
        rcases hread with ⟨_, _, _, hphase, _⟩ | ⟨_, _, hphase, _⟩
        · cases hphase
        · cases hphase
      · rcases hread with ⟨_, _, _, hphase, _⟩ | ⟨_, _, hphase, _⟩
        · cases (hidle other hother).symm.trans hphase
        · cases (hidle other hother).symm.trans hphase

/-- An eviction reads the index before the value is added to it, and deletes it
afterwards; the eviction that is called then does not find the value. -/
def forgottenKey : List (ClientEvent Nat Unit Unit Unit) :=
  [.calls 0 (.evictTags ["stock"]), .runs 0 (),
    .calls 1 (.setWithTags "order" () none ["stock"]), .runs 1 (), .runs 1 (), .runs 0 (),
    .calls 2 (.evictTags ["stock"]), .runs 2 ()]

theorem evicts_not_forgottenKey :
    ¬ Along (Clients.step {} unitRuntime) (Evicts {} unitRuntime) (initial ⟨0, []⟩)
      (forgottenKey ++ [.runs 2 ()]) := by
  intro hevicts
  obtain ⟨_, hlast, _⟩ := along_append.mp hevicts
  have hphase : (run (.step {} unitRuntime) (initial ⟨0, []⟩) forgottenKey).phase 2 =
      .evicting ["stock"] [] [("order", 1)] := rfl
  exact hlast "order" 1 (by decide) ⟨by decide +kernel, by decide +kernel⟩

end Clients

end Kept

end Spakky.Redis
