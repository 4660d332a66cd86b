/-
What the tags of a deletion do to the tombstones.

A kind 5 is processed tag by tag.  Seen from one event that is cached, a tag
either covers it or leaves it alone; seen from one id that is not cached, it
bumps the pending reference or not; seen from one address, it raises the
recorded time or not.  For a whole deletion these become
-/
import Nipworker.Storage.IndexInvariant

namespace Nipworker

open List

/-! ### What a deletion says about an event -/

/-- Some tag of the event is called `name` and its value satisfies `p`. -/
def Event.anyTag (ev : Event) (name : String) (p : String → Bool) : Bool :=
  ev.tags.any fun tag =>
    match tag.pair with
    | some (n, v) => n = name && p v
    | none => false

theorem Event.anyTag_iff {ev : Event} {name : String} {p : String → Bool} :
    ev.anyTag name p = true ↔ ∃ v, ev.HasTag name v ∧ p v = true := by
  rw [Event.anyTag, any_eq_true]
  constructor
  · rintro ⟨tag, htag, h⟩
    rcases hp : tag.pair with _ | ⟨n, v⟩
    · rw [hp] at h
      cases h
    · rw [hp] at h
      simp only [Bool.and_eq_true, decide_eq_true_eq] at h
      exact ⟨v, ⟨tag, htag, by rw [hp, h.1]⟩, h.2⟩
  · rintro ⟨v, ⟨tag, htag, hp⟩, hv⟩
    exact ⟨tag, htag, by rw [hp]; simp [hv]⟩

/-- An `a` tag of a deletion that is taken into account: `kind:author:d` with
the deletion's own author and a readable kind. -/
def recordsAddress (author address : String) : Bool :=
  match Text.splitn3 ':' address with
  | some (kindStr, addrAuthor, _) => addrAuthor = author && (parseU16 kindStr).isSome
  | none => false

/-- An `a` tag of a deletion by `author` at time `ts` that covers the cached
event `t`. -/
def addressHits (author : String) (ts : ℕ) (t : Event) (address : String) : Bool :=
  match Text.splitn3 ':' address with
  | some (kindStr, addrAuthor, d) =>
    addrAuthor = author && parseU16 kindStr = some t.kind && author = t.pubkey
      && t.HasTag "d" d && t.createdAt ≤ ts
  | none => false

/-- The deletion `del` hides `t` when it comes after it: through an `e` tag of
its own author, or through an `a` tag. -/
def covers (del t : Event) : Bool :=
  (del.pubkey = t.pubkey && del.HasTag "e" t.id)
    || del.anyTag "a" (addressHits del.pubkey del.createdAt t)

/-- The deletion `del` records the address of `t` and reaches it in time, which
hides `t` when it comes after the deletion. -/
def addresses (del t : Event) : Bool :=
  isAddressable t.kind &&
    match firstDTag t.tags with
    | some d =>
      del.anyTag "a" (fun a => recordsAddress del.pubkey a && a = addressText t.kind t.pubkey d)
        && t.createdAt ≤ del.createdAt
    | none => false

/-- A pending reference after one more deletion of the same id. -/
def bump (slot : Option (String × ℕ)) (author : String) (ts : ℕ) : Option (String × ℕ) :=
  match slot with
  | some (a, old) => if ts > old then some (author, ts) else some (a, old)
  | none => some (author, ts)

theorem bump_bump (slot : Option (String × ℕ)) (author : String) (ts : ℕ) :
    bump (bump slot author ts) author ts = bump slot author ts := by
  rcases slot with _ | ⟨a, old⟩
  · simp [bump]
  · by_cases h : ts > old <;> simp [bump, h]

/-! ### One tag of a deletion -/

variable {ix : DatabaseIndexes} {evs : List Event} {t : Event} {author : String} {ts : ℕ}

def tagCovers (author : String) (ts : ℕ) (t : Event) (tag : StringVec) : Bool :=
  match tag.pair with
  | some (name, value) =>
    (name = "e" && author = t.pubkey && value = t.id)
      || (name = "a" && addressHits author ts t value)
  | none => false

theorem any_tagCovers (del t : Event) :
    del.tags.any (tagCovers del.pubkey del.createdAt t) = covers del t := by
  rw [Bool.eq_iff_iff, covers, Bool.or_eq_true, Event.anyTag_iff, any_eq_true]
  simp only [Bool.and_eq_true, decide_eq_true_eq]
  constructor
  · rintro ⟨tag, htag, h⟩
    rcases hp : tag.pair with _ | ⟨name, value⟩ <;> simp only [tagCovers, hp] at h
    · cases h
    · simp only [Bool.or_eq_true, Bool.and_eq_true, decide_eq_true_eq] at h
      rcases h with ⟨⟨rfl, ha⟩, rfl⟩ | ⟨rfl, ha⟩
      · exact .inl ⟨ha, tag, htag, hp⟩
      · exact .inr ⟨value, ⟨tag, htag, hp⟩, ha⟩
  · rintro (⟨ha, tag, htag, hp⟩ | ⟨v, ⟨tag, htag, hp⟩, hv⟩)
    · exact ⟨tag, htag, by simp [tagCovers, hp, ha]⟩
    · exact ⟨tag, htag, by simp [tagCovers, hp, hv]⟩

variable {key : EventKey} {T : Tombstones}

section Represented

variable (hrep : ix.Represents evs)

include hrep

theorem mem_eventsByPubkey_iff (hdet : DeterminedIds evs)
    (ht : t ∈ evs) (hkey : ix.HasKey t.id key) :
    key ∈ ix.eventsByPubkey.bucket author ↔ t.pubkey = author := by
  rw [hrep.byPubkey]
  constructor
  · rintro ⟨ev, hev, hpk, hk⟩
    rw [← hdet ev hev t ht (hrep.inj _ _ _ hk hkey)]
    exact hpk
  · intro h
    exact ⟨t, ht, h, hkey⟩

theorem mem_eventsByKind_iff (hdet : DeterminedIds evs)
    (ht : t ∈ evs) (hkey : ix.HasKey t.id key) {kind : UInt16} :
    key ∈ ix.eventsByKind.bucket kind ↔ t.kind = kind := by
  rw [hrep.byKind]
  constructor
  · rintro ⟨ev, hev, hk, hkk⟩
    rw [← hdet ev hev t ht (hrep.inj _ _ _ hkk hkey)]
    exact hk
  · intro h
    exact ⟨t, ht, h, hkey⟩

theorem mem_eventsByTag_iff (hdet : DeterminedIds evs)
    (ht : t ∈ evs) (hkey : ix.HasKey t.id key) {n : TagName} {v : String} :
    key ∈ (ix.eventsByTag n).bucket v ↔ t.HasTag n.text v := by
  rw [hrep.byTag]
  constructor
  · rintro ⟨ev, hev, hv, hk⟩
    rw [← hdet ev hev t ht (hrep.inj _ _ _ hk hkey)]
    exact hv
  · intro h
    exact ⟨t, ht, h, hkey⟩

theorem mem_addressTargets_iff (hdet : DeterminedIds evs)
    (ht : t ∈ evs) (hkey : ix.HasKey t.id key) {kind : UInt16} {d : String} :
    key ∈ addressTargets ix kind author d ts ↔
      t.kind = kind ∧ t.pubkey = author ∧ t.HasTag "d" d ∧ t.createdAt ≤ ts := by
  rw [mem_addressTargets, mem_eventsByTag_iff hrep hdet ht hkey,
    mem_eventsByKind_iff hrep hdet ht hkey, mem_eventsByPubkey_iff hrep hdet ht hkey]
  have htime : (∃ r, ix.eventsByKey.lookup key = some r ∧ r.createdAt ≤ ts) ↔
      t.createdAt ≤ ts := by
    obtain ⟨r, hr, rfl⟩ := hkey
    have hlook : ix.eventsByKey.lookup r.key = some r := (hrep.byKey r.key r).mpr ⟨rfl, t.id, hr⟩
    simp [hlook, hrep.createdAt t ht r hr]
  rw [htime]
  constructor
  · rintro ⟨⟨hd, hk, hp⟩, hts⟩
    exact ⟨hk, hp, hd, hts⟩
  · rintro ⟨hk, hp, hd, hts⟩
    exact ⟨⟨hd, hk, hp⟩, hts⟩

theorem mem_deletedKeys_processETag (hdet : DeterminedIds evs)
    (ht : t ∈ evs) (hkey : ix.HasKey t.id key) {target : String} :
    key ∈ (processETag ix author ts T target).deletedKeys ↔
      key ∈ T.deletedKeys ∨ (author = t.pubkey ∧ target = t.id) := by
  unfold processETag
  rcases hlook : ix.eventsById.lookup target with _ | record
  · -- the target is not cached, so it is not `t`
    have hne : target ≠ t.id := by
      rintro rfl
      obtain ⟨r, hr, -⟩ := hkey
      rw [DatabaseIndexes.record, hlook] at hr
      cases hr
    have : ∀ T' : Tombstones, T'.deletedKeys = T.deletedKeys →
        (key ∈ T'.deletedKeys ↔ key ∈ T.deletedKeys ∨ (author = t.pubkey ∧ target = t.id)) := by
      intro T' hT'
      simp [hT', hne]
    dsimp only
    (repeat' split) <;> exact this _ rfl
  · have hrec : ix.HasKey target record.key := ⟨record, hlook, rfl⟩
    by_cases hid : target = t.id
    · subst hid
      have hrk : record.key = key := by
        obtain ⟨r, hr, rfl⟩ := hkey
        rw [DatabaseIndexes.record, hlook] at hr
        cases hr
        rfl
      have hmem : key ∈ ix.eventsByPubkey.bucket author ↔ t.pubkey = author :=
        mem_eventsByPubkey_iff hrep hdet ht hkey
      dsimp only
      rw [hrk]
      by_cases hpk : t.pubkey = author
      · rw [if_pos (hmem.mpr hpk)]
        simp [hpk]
      · rw [if_neg (fun h => hpk (hmem.mp h))]
        simp [Ne.symm hpk]
    · have hne : record.key ≠ key := fun h => hid (hrep.inj _ _ _ (h ▸ hrec) hkey)
      dsimp only
      split <;> simp [hid, Ne.symm hne]

theorem mem_deletedKeys_processATag (hdet : DeterminedIds evs)
    (ht : t ∈ evs) (hkey : ix.HasKey t.id key) {address : String} :
    key ∈ (processATag ix author ts T address).deletedKeys ↔
      key ∈ T.deletedKeys ∨ addressHits author ts t address = true := by
  unfold processATag addressHits
  rcases Text.splitn3 ':' address with _ | ⟨kindStr, addrAuthor, d⟩
  · simp
  · dsimp only
    by_cases hauth : addrAuthor = author
    · subst hauth
      rcases hkind : parseU16 kindStr with _ | kind
      · simp
      · simp only [ne_eq, not_true_eq_false, if_false, Finset.mem_union,
          mem_addressTargets_iff hrep hdet ht hkey]
        simp only [Bool.and_eq_true, decide_eq_true_eq, Option.some.injEq]
        refine or_congr_right ⟨?_, ?_⟩
        · rintro ⟨hk, hp, hd, hts⟩
          exact ⟨⟨⟨⟨trivial, hk.symm⟩, hp.symm⟩, hd⟩, hts⟩
        · rintro ⟨⟨⟨⟨-, hk⟩, hp⟩, hd⟩, hts⟩
          exact ⟨hk.symm, hp.symm, hd, hts⟩
    · simp [hauth]

theorem mem_deletedKeys_processDeletionTag (hdet : DeterminedIds evs) (ht : t ∈ evs) (hkey : ix.HasKey t.id key) {tag : StringVec} :
    key ∈ (processDeletionTag ix author ts T tag).deletedKeys ↔
      key ∈ T.deletedKeys ∨ tagCovers author ts t tag = true := by
  unfold processDeletionTag tagCovers
  rcases tag.pair with _ | ⟨name, value⟩
  · simp
  · dsimp only
    by_cases he : name = "e"
    · subst he
      rw [if_pos rfl, mem_deletedKeys_processETag hrep hdet ht hkey]
      simp
    · by_cases ha : name = "a"
      · subst ha
        rw [if_neg (by decide), if_pos rfl, mem_deletedKeys_processATag hrep hdet ht hkey]
        simp
      · simp [he, ha]

/-- A cached event is suppressed by a tag that covers it (`covers`). -/
theorem mem_deletedKeys_foldl (hdet : DeterminedIds evs)
    (ht : t ∈ evs) (hkey : ix.HasKey t.id key) (author : String) (ts : ℕ) (tags : List StringVec) :
    ∀ T : Tombstones,
      key ∈ (tags.foldl (processDeletionTag ix author ts) T).deletedKeys ↔
        key ∈ T.deletedKeys ∨ tags.any (tagCovers author ts t) = true := by
  induction tags with
  | nil => simp
  | cons tag rest ih =>
    intro T
    rw [foldl_cons, ih, mem_deletedKeys_processDeletionTag hrep hdet ht hkey,
      any_cons, Bool.or_eq_true, or_assoc]

theorem deletedKeys_processDeletionTag_subset {tag : StringVec}
    (h : key ∈ (processDeletionTag ix author ts T tag).deletedKeys) :
    key ∈ T.deletedKeys ∨ ∃ id, ix.HasKey id key := by
  unfold processDeletionTag at h
  rcases hp : tag.pair with _ | ⟨name, value⟩ <;> rw [hp] at h
  · exact .inl h
  · dsimp only at h
    split at h
    · unfold processETag at h
      rcases hlook : ix.eventsById.lookup value with _ | record
      · rw [hlook] at h
        dsimp only at h
        (repeat' split at h) <;> exact .inl h
      · rw [hlook] at h
        dsimp only at h
        split at h
        · rcases Finset.mem_insert.mp h with rfl | h
          · exact .inr ⟨value, record, hlook, rfl⟩
          · exact .inl h
        · exact .inl h
    · split at h
      · unfold processATag at h
        rcases hs : Text.splitn3 ':' value with _ | ⟨kindStr, addrAuthor, d⟩ <;> rw [hs] at h
        · exact .inl h
        dsimp only at h
        split at h
        · exact .inl h
        rcases hk : parseU16 kindStr with _ | kind <;> rw [hk] at h
        · exact .inl h
        rcases Finset.mem_union.mp h with h | h
        · exact .inl h
        · obtain ⟨-, r, hr, -⟩ := mem_addressTargets.mp h
          obtain ⟨hrk, id, hid⟩ := (hrep.byKey key r).mp hr
          exact .inr ⟨id, r, hid, hrk⟩
      · exact .inl h

theorem deletedKeys_foldl_subset (tags : List StringVec)
    : ∀ {T : Tombstones},
    key ∈ (tags.foldl (processDeletionTag ix author ts) T).deletedKeys →
      key ∈ T.deletedKeys ∨ ∃ id, ix.HasKey id key := by
  induction tags with
  | nil => exact fun h => .inl h
  | cons tag rest ih =>
    intro T h
    rcases ih h with h | h
    · exact deletedKeys_processDeletionTag_subset hrep h
    · exact .inr h

end Represented

/-! ### Pending references -/

/-- A tag `e` of value `id`. -/
def isETag (id : String) (tag : StringVec) : Bool := tag.pair = some ("e", id)

theorem any_isETag (del : Event) (id : String) :
    del.tags.any (isETag id) = decide (del.HasTag "e" id) := by
  rw [Bool.eq_iff_iff, any_eq_true, decide_eq_true_eq]
  simp only [isETag, decide_eq_true_eq]
  rfl

theorem pendingIds_processDeletionTag (T : Tombstones) (tag : StringVec) (id : String) :
    (processDeletionTag ix author ts T tag).pendingIds.lookup id
      = if (ix.record id).isNone ∧ isETag id tag then bump (T.pendingIds.lookup id) author ts
        else T.pendingIds.lookup id := by
  unfold processDeletionTag isETag
  rcases tag.pair with _ | ⟨name, value⟩
  · simp
  · dsimp only
    by_cases he : name = "e"
    · subst he
      rw [if_pos rfl, processETag]
      by_cases hv : value = id
      · subst hv
        rcases hlook : ix.eventsById.lookup value with _ | record
        · rcases hslot : T.pendingIds.lookup value with _ | ⟨a, old⟩
          · simp [DatabaseIndexes.record, hlook, bump]
          · by_cases hts : ts > old <;> simp [DatabaseIndexes.record, hlook, bump, hts, hslot]
        · dsimp only
          split <;> simp [DatabaseIndexes.record, hlook]
      · have hins : ∀ x : String × ℕ,
            (T.pendingIds.insert value x).lookup id = T.pendingIds.lookup id :=
          fun x => AList.lookup_insert_ne (Ne.symm hv)
        simp only [Option.some.injEq, Prod.mk.injEq, hv, decide_false, Bool.false_eq_true,
          and_false, if_false]
        (repeat' split) <;> first | rfl | exact hins _
    · have hrhs : ¬ ((ix.record id).isNone = true ∧
          (decide (some (name, value) = some ("e", id))) = true) := by
        simp [he]
      rw [if_neg he, if_neg hrhs]
      split
      · unfold processATag
        (repeat' split) <;> rfl
      · rfl

/-- The reference waiting for an id. -/
theorem pendingIds_foldl (tags : List StringVec) (id : String) : ∀ T : Tombstones,
    (tags.foldl (processDeletionTag ix author ts) T).pendingIds.lookup id
      = if (ix.record id).isNone ∧ tags.any (isETag id) then
          bump (T.pendingIds.lookup id) author ts
        else T.pendingIds.lookup id := by
  induction tags with
  | nil => simp
  | cons tag rest ih =>
    intro T
    rw [foldl_cons, ih, pendingIds_processDeletionTag, any_cons]
    rcases (ix.record id).isNone with _ | _
    · simp
    · rcases isETag id tag with _ | _ <;> rcases rest.any (isETag id) with _ | _ <;>
        simp [bump_bump]

/-! ### Recorded addresses -/

/-- An `a` tag of value `address` that a deletion by `author` records. -/
def isATag (author address : String) (tag : StringVec) : Bool :=
  tag.pair = some ("a", address) && recordsAddress author address

def latest (old : Option ℕ) (ts : ℕ) : Option ℕ :=
  match old with
  | some x => some (max x ts)
  | none => some ts

theorem latest_latest (old : Option ℕ) (ts : ℕ) : latest (latest old ts) ts = latest old ts := by
  rcases old with _ | x <;> simp [latest]

theorem deletedAddresses_processDeletionTag (T : Tombstones) (tag : StringVec)
    (address : String) :
    (processDeletionTag ix author ts T tag).deletedAddresses.lookup address
      = if isATag author address tag then latest (T.deletedAddresses.lookup address) ts
        else T.deletedAddresses.lookup address := by
  unfold processDeletionTag isATag
  rcases tag.pair with _ | ⟨name, value⟩
  · simp
  · dsimp only
    by_cases he : name = "e"
    · subst he
      rw [if_pos rfl, if_neg (by simp)]
      unfold processETag
      (repeat' split) <;> rfl
    · rw [if_neg he]
      by_cases ha : name = "a"
      · subst ha
        rw [if_pos rfl]
        unfold processATag recordsAddress
        by_cases hv : value = address
        · subst hv
          rcases Text.splitn3 ':' value with _ | ⟨kindStr, addrAuthor, d⟩
          · simp
          · by_cases hauth : addrAuthor = author
            · subst hauth
              rcases hkind : parseU16 kindStr with _ | kind
              · simp [hkind]
              · simp only [ne_eq, not_true_eq_false, if_false, hkind, AList.lookup_insert]
                simp only [decide_true, Option.isSome_some, Bool.and_self, if_true]
                rcases T.deletedAddresses.lookup value with _ | x <;> rfl
            · simp [hauth]
        · have hins : ∀ x : ℕ,
              (T.deletedAddresses.insert value x).lookup address
                = T.deletedAddresses.lookup address :=
            fun x => AList.lookup_insert_ne (Ne.symm hv)
          rw [if_neg (by simp [hv])]
          (repeat' split) <;> first | rfl | exact hins _
      · simp [ha]

/-- The time kept for an address (`addresses`). -/
theorem deletedAddresses_foldl (tags : List StringVec) (address : String) : ∀ T : Tombstones,
    (tags.foldl (processDeletionTag ix author ts) T).deletedAddresses.lookup address
      = if tags.any (isATag author address) then latest (T.deletedAddresses.lookup address) ts
        else T.deletedAddresses.lookup address := by
  induction tags with
  | nil => simp
  | cons tag rest ih =>
    intro T
    rw [foldl_cons, ih, deletedAddresses_processDeletionTag, any_cons]
    rcases isATag author address tag with _ | _ <;>
      rcases rest.any (isATag author address) with _ | _ <;> simp [latest_latest]

end Nipworker
