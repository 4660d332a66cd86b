/-
What a remote signer has decrypted (`crypto/signers/nip46/mod.rs`: `DecryptCache`,
`nip04_decrypt`, `nip44_decrypt`).

A decryption looks into the cache first.  When nothing is there the remote signer is
asked, and while the answer is waited for other decryptions may start and end, also of the
same text.  An answer goes into the cache, which drops its oldest entries; a failure does
not.
-/
import Nipworker.Lib.History
import Nipworker.Lib.Map
import Nipworker.Lib.RecentWindow
import Nipworker.Lib.Run

namespace Nipworker

open List

def decryptCacheCapacity : ℕ := 1024

/-- The scheme, the peer and the text. -/
structure DecryptCacheKey where
  nip : ℕ
  peer : String
  ciphertext : String
  deriving DecidableEq

/-- The plaintexts, and the keys in the order they entered. -/
structure DecryptCache where
  values : Map DecryptCacheKey String
  order : List DecryptCacheKey

namespace DecryptCache

def get (cache : DecryptCache) (key : DecryptCacheKey) : Option String := cache.values.lookup key

/-- The loop that drops the oldest entries while the cache is full. -/
def makeRoom (values : Map DecryptCacheKey String) : List DecryptCacheKey → DecryptCache
  | [] => ⟨values, []⟩
  | oldest :: order =>
    if decryptCacheCapacity ≤ values.keys.length then makeRoom (values.erase oldest) order
    else ⟨values, oldest :: order⟩

def insert (cache : DecryptCache) (key : DecryptCacheKey) (plaintext : String) : DecryptCache :=
  if (cache.values.lookup key).isSome then
    { cache with values := cache.values.insert key plaintext }
  else
    let cache := makeRoom cache.values cache.order
    ⟨cache.values.insert key plaintext, cache.order ++ [key]⟩

end DecryptCache

/-- What a call came to, and what was answered. -/
inductive DecryptEntry
  /-- The call found a plaintext. -/
  | returned (key : DecryptCacheKey) (plaintext : String)
  | asked (key : DecryptCacheKey)
  | answered (key : DecryptCacheKey) (plaintext : String)
  | failed (key : DecryptCacheKey)

/-- The decryptions of a signer, and what has happened; the requests that are waited for
are numbered. -/
structure Decryptions where
  cache : DecryptCache
  waiting : Map ℕ DecryptCacheKey
  log : List DecryptEntry

/-- A call of the signer, or the answer to one. -/
inductive DecryptAct
  | nip04Decrypt (id : ℕ) (peer ciphertext : String)
  | nip44Decrypt (id : ℕ) (peer ciphertext : String)
  | reply (id : ℕ) (answer : Option String)

namespace Decryptions

def new : Decryptions := ⟨⟨∅, []⟩, ∅, []⟩

def decrypt (st : Decryptions) (id : ℕ) (key : DecryptCacheKey) : Decryptions :=
  match st.cache.get key with
  | some plaintext => { st with log := st.log ++ [.returned key plaintext] }
  | none => { st with waiting := st.waiting.insert id key, log := st.log ++ [.asked key] }

def reply (st : Decryptions) (id : ℕ) (answer : Option String) : Decryptions :=
  match st.waiting.lookup id, answer with
  | none, _ => st
  | some key, none => { st with waiting := st.waiting.erase id, log := st.log ++ [.failed key] }
  | some key, some plaintext =>
    ⟨st.cache.insert key plaintext, st.waiting.erase id, st.log ++ [.answered key plaintext]⟩

/-- A call up to the request, or the answer to one. -/
def step (st : Decryptions) : DecryptAct → Decryptions
  | .nip04Decrypt id peer ciphertext => st.decrypt id ⟨4, peer, ciphertext⟩
  | .nip44Decrypt id peer ciphertext => st.decrypt id ⟨44, peer, ciphertext⟩
  | .reply id answer => st.reply id answer

end Decryptions

/-! ### What is asked -/

/-- An answer enters its key, unless the key is among the last ones. -/
def enterKey (entered : List DecryptCacheKey) : DecryptEntry → List DecryptCacheKey
  | .answered key _ =>
    if key ∈ entered.rtake decryptCacheCapacity then entered else entered ++ [key]
  | _ => entered

def recentKeys (log : List DecryptEntry) : List DecryptCacheKey :=
  (log.foldl enterKey []).rtake decryptCacheCapacity

def DecryptEntry.NoAnswer (key : DecryptCacheKey) : DecryptEntry → Prop
  | .answered other _ => other ≠ key
  | _ => True

/-- What is returned without asking is what the signer last answered for the same scheme,
peer and text, and the signer is not asked for a key among the last ones that entered. -/
def Decryptions.Sound (log : List DecryptEntry) : Prop :=
  History.Always (fun before entry =>
    match entry with
    | .returned key plaintext =>
      key ∈ recentKeys before ∧ History.Since (DecryptEntry.NoAnswer key) (.answered key plaintext) before
    | .asked key => key ∉ recentKeys before
    | _ => True) log

/-- The number and the key of a call. -/
def DecryptAct.call : DecryptAct → Option (ℕ × DecryptCacheKey)
  | .nip04Decrypt id peer ciphertext => some (id, ⟨4, peer, ciphertext⟩)
  | .nip44Decrypt id peer ciphertext => some (id, ⟨44, peer, ciphertext⟩)
  | .reply _ _ => none

/-- What comes next: a call returns at once when its key is among the last ones, and is
waited for otherwise; the answer to one that is waited for ends it, and only a plaintext
changes the cache. -/
structure Decryptions.Responds (st : Decryptions) : Prop where
  returns : ∀ act id key, act.call = some (id, key) → key ∈ recentKeys st.log →
    ∃ plaintext, st.step act = { st with log := st.log ++ [.returned key plaintext] }
  asks : ∀ act id key, act.call = some (id, key) → key ∉ recentKeys st.log →
    st.step act =
      { st with waiting := st.waiting.insert id key, log := st.log ++ [.asked key] }
  answered : ∀ id key plaintext, st.waiting.lookup id = some key →
    (st.step (.reply id (some plaintext))).waiting = st.waiting.erase id ∧
      (st.step (.reply id (some plaintext))).log = st.log ++ [.answered key plaintext]
  failed : ∀ id key, st.waiting.lookup id = some key →
    st.step (.reply id none) =
      { st with waiting := st.waiting.erase id, log := st.log ++ [.failed key] }
  ignored : ∀ id answer, st.waiting.lookup id = none → st.step (.reply id answer) = st

/-! ### The queue and the table -/

namespace DecryptCache

/-- The queue lists the keys of the table, and no more than there may be. -/
structure Queued (cache : DecryptCache) : Prop where
  nodup : cache.order.Nodup
  keys : ∀ key, (cache.values.lookup key).isSome ↔ key ∈ cache.order
  few : cache.order.length ≤ decryptCacheCapacity

variable {cache : DecryptCache} {key : DecryptCacheKey}

theorem Queued.length_keys (h : cache.Queued) : cache.values.keys.length = cache.order.length := by
  have hperm : cache.values.keys.Perm cache.order :=
    (perm_ext_iff_of_nodup cache.values.keys_nodup h.nodup).mpr fun key => by
      rw [← h.keys, AList.lookup_isSome, AList.mem_keys]
  exact hperm.length_eq

theorem Queued.lookup_of_notMem (h : cache.Queued) (hkey : key ∉ cache.order) :
    cache.values.lookup key = none := by
  rwa [← h.keys, Option.not_isSome_iff_eq_none] at hkey

theorem makeRoom_of_lt {values : Map DecryptCacheKey String} (order : List DecryptCacheKey)
    (h : values.keys.length < decryptCacheCapacity) : makeRoom values order = ⟨values, order⟩ := by
  cases order with
  | nil => rfl
  | cons oldest order => rw [makeRoom, if_neg (Nat.not_le.mpr h)]

theorem Queued.makeRoom (h : cache.Queued) (hkey : key ∉ cache.order) :
    (makeRoom cache.values cache.order).order ++ [key] =
        (cache.order ++ [key]).rtake decryptCacheCapacity ∧
      ∀ k, k ≠ key → (makeRoom cache.values cache.order).values.lookup k =
        if k ∈ (makeRoom cache.values cache.order).order then cache.values.lookup k else none := by
  have hlength := h.length_keys
  rw [List.rtake_concat_eq h.few, length_append, length_singleton]
  by_cases hfull : cache.order.length < decryptCacheCapacity
  · rw [makeRoom_of_lt cache.order (hlength ▸ hfull), if_neg (by omega)]
    refine ⟨rfl, fun k _ => ?_⟩
    split
    · rfl
    · next hk => exact h.lookup_of_notMem hk
  · have hfew := h.few
    obtain ⟨values, order⟩ := cache
    cases order with
    | nil => exact absurd (show 0 < decryptCacheCapacity by decide) hfull
    | cons oldest order =>
      obtain ⟨hnotin, -⟩ := List.nodup_cons.mp h.nodup
      dsimp only at hlength hfull hfew ⊢
      have hmem : oldest ∈ values.keys := by
        rw [← AList.mem_keys, ← AList.lookup_isSome]
        exact (h.keys oldest).mpr mem_cons_self
      have herased : (values.erase oldest).keys.length < decryptCacheCapacity := by
        rw [AList.keys_erase, length_erase_of_mem hmem]
        rw [length_cons] at hlength hfew
        omega
      rw [DecryptCache.makeRoom, if_pos (by omega), makeRoom_of_lt order herased, if_pos (by omega)]
      refine ⟨rfl, fun k _ => ?_⟩
      dsimp only
      rw [Map.lookup_erase_ite]
      by_cases holdest : k = oldest
      · rw [if_pos holdest, holdest, if_neg hnotin]
      · rw [if_neg holdest]
        split
        · rfl
        · next hk => exact h.lookup_of_notMem fun hin => (List.mem_cons.mp hin).elim holdest hk

theorem Queued.insert_new (h : cache.Queued) (hkey : key ∉ cache.order) (plaintext : String) :
    (cache.insert key plaintext).order = (cache.order ++ [key]).rtake decryptCacheCapacity ∧
      ∀ k, (cache.insert key plaintext).values.lookup k =
        if k = key then some plaintext
        else if k ∈ (cache.insert key plaintext).order then cache.values.lookup k else none := by
  obtain ⟨horder, hlookup⟩ := h.makeRoom hkey
  have hnew : ¬ (cache.values.lookup key).isSome := by rwa [h.keys]
  rw [insert, if_neg hnew]
  refine ⟨horder, fun k => ?_⟩
  dsimp only
  rw [Map.lookup_insert_ite]
  by_cases hk : k = key
  · rw [if_pos hk, if_pos hk]
  · rw [if_neg hk, if_neg hk, hlookup k hk]
    simp only [mem_append, mem_singleton, hk, or_false]

theorem Queued.insert (h : cache.Queued) (key : DecryptCacheKey) (plaintext : String) :
    (cache.insert key plaintext).Queued := by
  by_cases hkey : key ∈ cache.order
  · rw [DecryptCache.insert, if_pos ((h.keys key).mpr hkey)]
    refine ⟨h.nodup, fun k => ?_, h.few⟩
    rw [Map.lookup_insert_ite]
    split
    · next hk => simp [hk, hkey]
    · exact h.keys k
  · obtain ⟨horder, hlookup⟩ := h.insert_new hkey plaintext
    have hlast : key ∈ (cache.order ++ [key]).rtake decryptCacheCapacity := by
      rw [decryptCacheCapacity, rtake_concat_succ]
      exact mem_append_right _ (mem_singleton_self key)
    have hsuffix : (cache.order ++ [key]).rtake decryptCacheCapacity <:+ cache.order ++ [key] :=
      drop_suffix ..
    refine ⟨?_, fun k => ?_, ?_⟩
    · rw [horder]
      refine hsuffix.sublist.nodup ?_
      exact List.nodup_append.mpr ⟨h.nodup, nodup_singleton key, by
        rintro a ha b hb rfl
        exact hkey (List.mem_singleton.mp hb ▸ ha)⟩
    · rw [hlookup, horder]
      by_cases hk : k = key
      · simp [hk, hlast]
      · rw [if_neg hk]
        split
        · next hin =>
          have hold := (List.mem_append.mp (hsuffix.subset hin)).resolve_right
            fun hlast => hk (List.mem_singleton.mp hlast)
          exact iff_of_true ((h.keys k).mpr hold) hin
        · next hout => exact iff_of_false (by simp) hout
    · rw [horder]
      exact List.length_rtake_le _ _

end DecryptCache

/-! ### Runs -/

/-- The cache holds the last keys that have entered, each with its last answer. -/
structure Decryptions.Kept (st : Decryptions) : Prop where
  queued : st.cache.Queued
  recent : st.cache.order = recentKeys st.log
  last : ∀ key plaintext, st.cache.values.lookup key = some plaintext →
    History.Since (DecryptEntry.NoAnswer key) (.answered key plaintext) st.log
  sound : Sound st.log

namespace Decryptions

variable {st : Decryptions}

theorem Kept.note (h : st.Kept) {entry : DecryptEntry} (waiting : Map ℕ DecryptCacheKey)
    (henter : ∀ entered, enterKey entered entry = entered) (hno : ∀ key, entry.NoAnswer key)
    (hsound : Sound (st.log ++ [entry])) :
    ({ st with waiting := waiting, log := st.log ++ [entry] } : Decryptions).Kept := by
  refine ⟨h.queued, ?_, fun key plaintext hlookup => ?_, hsound⟩
  · rw [recentKeys, foldl_append, foldl_cons, foldl_nil, henter]
    exact h.recent
  · exact History.since_concat.mpr (.inr ⟨hno key, h.last key plaintext hlookup⟩)

theorem Kept.decrypt (h : st.Kept) (id : ℕ) (key : DecryptCacheKey) : (st.decrypt id key).Kept := by
  rw [Decryptions.decrypt, DecryptCache.get]
  have hkeys := h.queued.keys key
  rw [h.recent] at hkeys
  match hlookup : st.cache.values.lookup key with
  | some plaintext =>
    rw [hlookup] at hkeys
    refine h.note st.waiting (fun _ => rfl) (fun _ => trivial) (History.always_concat.mpr ⟨h.sound, ?_⟩)
    exact ⟨hkeys.mp rfl, h.last key plaintext hlookup⟩
  | none =>
    rw [hlookup] at hkeys
    refine h.note _ (fun _ => rfl) (fun _ => trivial) (History.always_concat.mpr ⟨h.sound, ?_⟩)
    exact fun hin => absurd (hkeys.mpr hin) Bool.false_ne_true

theorem Kept.answer (h : st.Kept) (waiting : Map ℕ DecryptCacheKey) (key : DecryptCacheKey)
    (plaintext : String) :
    (⟨st.cache.insert key plaintext, waiting, st.log ++ [.answered key plaintext]⟩ :
      Decryptions).Kept := by
  have hrecent : recentKeys (st.log ++ [.answered key plaintext]) =
      if key ∈ st.cache.order then st.cache.order
      else (st.cache.order ++ [key]).rtake decryptCacheCapacity := by
    have henter : (st.log ++ [DecryptEntry.answered key plaintext]).foldl enterKey [] =
        if key ∈ recentKeys st.log then st.log.foldl enterKey []
        else st.log.foldl enterKey [] ++ [key] := by
      rw [foldl_append, foldl_cons, foldl_nil, enterKey, recentKeys]
    rw [h.recent, recentKeys, henter]
    split
    · rw [recentKeys]
    · rw [List.rtake_append_singleton, recentKeys]
  have hlast : ∀ k p, (if k = key then some plaintext else st.cache.values.lookup k) = some p →
      History.Since (DecryptEntry.NoAnswer k) (.answered k p) (st.log ++ [.answered key plaintext]) := by
    intro k p hlookup
    rw [History.since_concat]
    split at hlookup
    · next hk =>
      rw [hk, Option.some.inj hlookup]
      exact .inl rfl
    · next hk => exact .inr ⟨Ne.symm hk, h.last k p hlookup⟩
  refine ⟨h.queued.insert key plaintext, ?_, fun k p hlookup => hlast k p ?_,
    History.always_concat.mpr ⟨h.sound, trivial⟩⟩
  · rw [hrecent]
    split
    · next hin => rw [DecryptCache.insert, if_pos ((h.queued.keys key).mpr hin)]
    · next hout => exact (h.queued.insert_new hout plaintext).1
  · by_cases hin : key ∈ st.cache.order
    · rwa [DecryptCache.insert, if_pos ((h.queued.keys key).mpr hin), Map.lookup_insert_ite] at hlookup
    · rw [(h.queued.insert_new hin plaintext).2 k] at hlookup
      split at hlookup
      · next hk => rwa [if_pos hk]
      · next hk =>
        rw [if_neg hk]
        split at hlookup
        · exact hlookup
        · cases hlookup

theorem Kept.step (h : st.Kept) (act : DecryptAct) : (st.step act).Kept := by
  cases act with
  | nip04Decrypt id peer ciphertext => exact h.decrypt id _
  | nip44Decrypt id peer ciphertext => exact h.decrypt id _
  | reply id answer =>
    change (st.reply id answer).Kept
    rw [reply.eq_def]
    split
    · exact h
    · exact h.note _ (fun _ => rfl) (fun _ => trivial) (History.always_concat.mpr ⟨h.sound, trivial⟩)
    · exact h.answer _ _ _

theorem step_of_call (st : Decryptions) {act : DecryptAct} {id : ℕ} {key : DecryptCacheKey}
    (h : act.call = some (id, key)) : st.step act = st.decrypt id key := by
  cases act with
  | reply _ _ => cases h
  | _ =>
    cases h
    rfl

theorem Kept.responds (h : st.Kept) : st.Responds where
  returns act id key hcall hrecent := by
    rw [← h.recent, ← h.queued.keys] at hrecent
    obtain ⟨plaintext, hlookup⟩ := Option.isSome_iff_exists.mp hrecent
    refine ⟨plaintext, ?_⟩
    rw [step_of_call st hcall, Decryptions.decrypt, DecryptCache.get, hlookup]
  asks act id key hcall hrecent := by
    rw [← h.recent] at hrecent
    rw [step_of_call st hcall, Decryptions.decrypt, DecryptCache.get,
      h.queued.lookup_of_notMem hrecent]
  answered id key plaintext hwaiting := by
    simp only [Decryptions.step, Decryptions.reply, hwaiting, and_self]
  failed id key hwaiting := by
    simp only [Decryptions.step, Decryptions.reply, hwaiting]
  ignored id answer hwaiting := by
    simp only [Decryptions.step, Decryptions.reply, hwaiting]

end Decryptions

/-- **Decryptions.**  In every run, calls and answers in any order, a plaintext that is
returned without asking is the signer's last answer for the same scheme, peer and text, and
the signer is asked when and only when the key is not among the last 1024 that entered. -/
theorem decryptions_sound (acts : List DecryptAct) :
    Decryptions.Sound (Run.exec Decryptions.step .new acts).log ∧
      (Run.exec Decryptions.step .new acts).Responds := by
  have hnew : Decryptions.new.Kept := by
    refine ⟨⟨nodup_nil, fun key => ?_, Nat.zero_le _⟩, rfl, fun key plaintext hlookup => ?_,
      History.always_nil⟩
    · simp [Decryptions.new]
    · cases hlookup
  have hall : Run.Along Decryptions.step (fun _ _ => True) .new acts :=
    Run.along_of_mem (fun _ _ _ => trivial) _
  have hkept := hall.exec (fun st act h _ => h.step act) hnew
  exact ⟨hkept.sound, hkept.responds⟩

end Nipworker
