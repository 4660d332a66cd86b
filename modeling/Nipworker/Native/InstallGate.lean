/-
The installation of the native runtime
(`react-native/cpp/NipworkerReactNativeTransport.cpp`: `RuntimeInstallGate`;
`NipworkerReactNativeJSI.cpp`: `RuntimeTransport::install`, `RuntimeTransport::invalidate`).

Threads install and invalidate a runtime in any order.  An installation is what happens
between `beginInstall` and `finishInstall`; a thread that calls in between waits.
-/
import Nipworker.Lib.History
import Nipworker.Lib.Run

namespace Nipworker

open List

/-- The phases of the gate. -/
inductive RuntimeInstallGate
  | ready
  | installing
  | installed
  | invalidated

/-- What a thread that wants to install is told. -/
inductive RuntimeInstallDecision
  | install
  | alreadyInstalled
  | invalidated
  deriving DecidableEq

namespace RuntimeInstallGate

/-- `beginInstall`, which waits while the phase is `Installing`. -/
def beginInstall : RuntimeInstallGate → Option (RuntimeInstallGate × RuntimeInstallDecision)
  | .installing => none
  | .installed => some (.installed, .alreadyInstalled)
  | .invalidated => some (.invalidated, .invalidated)
  | .ready => some (.installing, .install)

/-- `finishInstall`, at the end of an installation or when it has thrown. -/
def finishInstall (succeeded : Bool) : RuntimeInstallGate → RuntimeInstallGate
  | .installing => if succeeded then .installed else .ready
  | phase => phase

/-- `invalidate`, which waits too. -/
def invalidate : RuntimeInstallGate → Option RuntimeInstallGate
  | .installing => none
  | _ => some .invalidated

end RuntimeInstallGate

/-- What the calls have come to. -/
inductive InstallEntry (τ : Type)
  | began (thread : τ) (decision : RuntimeInstallDecision)
  | finished (thread : τ) (succeeded : Bool)
  | invalidated

/-- The gate, the thread that is between the two calls of `install`, and what happened. -/
structure InstallRun (τ : Type) where
  gate : RuntimeInstallGate
  installer : Option τ
  log : List (InstallEntry τ)

/-- A thread comes to one of the three calls. -/
inductive InstallAct (τ : Type)
  | beginInstall (thread : τ)
  | finishInstall (thread : τ) (succeeded : Bool)
  | invalidate

namespace InstallRun

variable {τ : Type} [DecidableEq τ] (st : InstallRun τ)

/-- Nobody has called yet. -/
def new : InstallRun τ := ⟨.ready, none, []⟩

/-- A call that waits changes nothing.  In `install` only a thread with the decision to
install comes to `finishInstall`, and once. -/
def step : InstallAct τ → InstallRun τ
  | .beginInstall thread =>
    match st.gate.beginInstall with
    | none => st
    | some (gate, decision) =>
      ⟨gate, if decision = .install then some thread else st.installer,
        st.log ++ [.began thread decision]⟩
  | .finishInstall thread succeeded =>
    if st.installer = some thread then
      ⟨st.gate.finishInstall succeeded, none, st.log ++ [.finished thread succeeded]⟩
    else st
  | .invalidate =>
    match st.gate.invalidate with
    | none => st
    | some gate => { st with gate := gate, log := st.log ++ [.invalidated] }

end InstallRun

/-! ### What is asked -/

section

variable {τ : Type} {log : List (InstallEntry τ)}

/-- No installation is going on. -/
def InstallIdle (log : List (InstallEntry τ)) : Prop :=
  ∀ t, log.getLast? ≠ some (.began t .install)

/-- Nothing has been installed yet, nor given up. -/
def InstallOpen (log : List (InstallEntry τ)) : Prop :=
  .invalidated ∉ log ∧ ∀ t, .finished t true ∉ log

/-- Nothing comes between the two ends of an installation, and the decisions are right. -/
def InstallRun.Sound (log : List (InstallEntry τ)) : Prop :=
  History.Always (fun before entry =>
    match entry with
    | .finished t _ => before.getLast? = some (.began t .install)
    | .began _ .install => InstallIdle before ∧ InstallOpen before
    | .began _ .alreadyInstalled =>
      InstallIdle before ∧ (∃ t, .finished t true ∈ before) ∧ .invalidated ∉ before
    | .began _ .invalidated => InstallIdle before ∧ .invalidated ∈ before
    | .invalidated => InstallIdle before) log

/-- What a call comes to: while a thread is installing the others wait for its end; at any
other time a thread is answered, and told to install exactly when the runtime is neither
installed nor given up. -/
structure InstallRun.Responds [DecidableEq τ] (st : InstallRun τ) : Prop where
  waits : ∀ t, st.log.getLast? = some (.began t .install) →
    (∀ other, st.step (.beginInstall other) = st) ∧ st.step .invalidate = st
  finishes : ∀ t, st.log.getLast? = some (.began t .install) → ∀ succeeded,
    (st.step (.finishInstall t succeeded)).log = st.log ++ [.finished t succeeded]
  begins : InstallIdle st.log → ∀ thread, ∃ decision,
    (st.step (.beginInstall thread)).log = st.log ++ [.began thread decision] ∧
      (decision = .install ↔ InstallOpen st.log)
  invalidates : InstallIdle st.log → (st.step .invalidate).log = st.log ++ [.invalidated]

theorem idle_concat {entry : InstallEntry τ} (h : ∀ t, entry ≠ .began t .install) :
    InstallIdle (log ++ [entry]) := by
  intro t hlast
  rw [List.getLast?_concat] at hlast
  exact h t (Option.some.inj hlast)

theorem notMem_began {entry : InstallEntry τ} (h : entry ∉ log) {thread : τ}
    {decision : RuntimeInstallDecision} (hne : entry ≠ .began thread decision) :
    entry ∉ log ++ [.began thread decision] := by
  simp [h, hne]

/-! ### Runs -/

/-- What the phase tells of the log. -/
def InstallRun.Told (st : InstallRun τ) : Prop :=
  match st.gate with
  | .installing => InstallOpen st.log ∧
      ∃ t, st.installer = some t ∧ st.log.getLast? = some (.began t .install)
  | .ready => st.installer = none ∧ InstallIdle st.log ∧ InstallOpen st.log
  | .installed => st.installer = none ∧ InstallIdle st.log ∧ (∃ t, .finished t true ∈ st.log) ∧
      .invalidated ∉ st.log
  | .invalidated => st.installer = none ∧ InstallIdle st.log ∧ .invalidated ∈ st.log

namespace InstallRun

variable [DecidableEq τ] {st : InstallRun τ}

theorem invalidate_told (h : st.Told) (hsound : Sound st.log) :
    (st.step .invalidate).Told ∧ Sound (st.step .invalidate).log := by
  obtain ⟨gate, installer, log⟩ := st
  have hgive : installer = none → InstallIdle log →
      (⟨.invalidated, installer, log ++ [.invalidated]⟩ : InstallRun τ).Told ∧
        Sound (log ++ [.invalidated]) := fun hnone hidle =>
    ⟨⟨hnone, idle_concat (by simp), by simp⟩, History.always_concat.mpr ⟨hsound, hidle⟩⟩
  cases gate with
  | installing => exact ⟨h, hsound⟩
  | ready => exact hgive h.1 h.2.1
  | installed => exact hgive h.1 h.2.1
  | invalidated => exact hgive h.1 h.2.1

theorem beginInstall_told (h : st.Told) (hsound : Sound st.log) (thread : τ) :
    (st.step (.beginInstall thread)).Told ∧ Sound (st.step (.beginInstall thread)).log := by
  obtain ⟨gate, installer, log⟩ := st
  cases gate with
  | installing => exact ⟨h, hsound⟩
  | ready =>
    obtain ⟨-, hidle, hopen⟩ := h
    refine ⟨⟨⟨notMem_began hopen.1 (by simp), fun t => notMem_began (hopen.2 t) (by simp)⟩,
      thread, rfl, List.getLast?_concat⟩, History.always_concat.mpr ⟨hsound, hidle, hopen⟩⟩
  | installed =>
    obtain ⟨hnone, hidle, hdone, hvalid⟩ := h
    refine ⟨⟨hnone, idle_concat (by simp), ?_, notMem_began hvalid (by simp)⟩,
      History.always_concat.mpr ⟨hsound, hidle, hdone, hvalid⟩⟩
    exact hdone.imp fun t ht => mem_append_left _ ht
  | invalidated =>
    obtain ⟨hnone, hidle, hinvalid⟩ := h
    exact ⟨⟨hnone, idle_concat (by simp), mem_append_left _ hinvalid⟩,
      History.always_concat.mpr ⟨hsound, hidle, hinvalid⟩⟩

theorem finishInstall_told (h : st.Told) (hsound : Sound st.log) (thread : τ) (succeeded : Bool) :
    (st.step (.finishInstall thread succeeded)).Told ∧
      Sound (st.step (.finishInstall thread succeeded)).log := by
  by_cases hthread : st.installer = some thread
  · obtain ⟨gate, installer, log⟩ := st
    dsimp only at hthread
    subst hthread
    cases gate with
    | installing =>
      obtain ⟨hopen, t, ht, hlast⟩ := h
      obtain rfl := Option.some.inj ht
      rw [step, if_pos rfl]
      refine ⟨?_, History.always_concat.mpr ⟨hsound, hlast⟩⟩
      cases succeeded with
      | true => exact ⟨rfl, idle_concat (by simp), ⟨thread, by simp⟩, by simpa using hopen.1⟩
      | false => exact ⟨rfl, idle_concat (by simp), by simpa using hopen.1, by simpa using hopen.2⟩
    | ready => cases h.1
    | installed => cases h.1
    | invalidated => cases h.1
  · rw [step, if_neg hthread]
    exact ⟨h, hsound⟩

theorem step_told (h : st.Told) (hsound : Sound st.log) (act : InstallAct τ) :
    (st.step act).Told ∧ Sound (st.step act).log := by
  cases act with
  | beginInstall thread => exact beginInstall_told h hsound thread
  | finishInstall thread succeeded => exact finishInstall_told h hsound thread succeeded
  | invalidate => exact invalidate_told h hsound

theorem Told.responds (h : st.Told) : st.Responds := by
  obtain ⟨gate, installer, log⟩ := st
  cases gate with
  | installing =>
    obtain ⟨-, t, ht, hlast⟩ := h
    refine ⟨fun _ _ => ⟨fun _ => rfl, rfl⟩, fun t' hlast' succeeded => ?_,
      fun hidle => absurd hlast (hidle t), fun hidle => absurd hlast (hidle t)⟩
    obtain rfl : t = t' := by
      cases hlast.symm.trans hlast'
      rfl
    rw [step, if_pos ht]
  | ready =>
    obtain ⟨-, hidle, hopen⟩ := h
    exact ⟨fun t hlast => absurd hlast (hidle t), fun t hlast => absurd hlast (hidle t),
      fun _ thread => ⟨.install, rfl, iff_of_true rfl hopen⟩, fun _ => rfl⟩
  | installed =>
    obtain ⟨-, hidle, ⟨t, hdone⟩, -⟩ := h
    exact ⟨fun t hlast => absurd hlast (hidle t), fun t hlast => absurd hlast (hidle t),
      fun _ thread => ⟨.alreadyInstalled, rfl, iff_of_false nofun fun hopen => hopen.2 t hdone⟩,
      fun _ => rfl⟩
  | invalidated =>
    obtain ⟨-, hidle, hinvalid⟩ := h
    exact ⟨fun t hlast => absurd hlast (hidle t), fun t hlast => absurd hlast (hidle t),
      fun _ thread => ⟨.invalidated, rfl, iff_of_false nofun fun hopen => hopen.1 hinvalid⟩,
      fun _ => rfl⟩

end InstallRun

end

/-- **The install gate.**  For any threads and in every order of their calls: nothing comes
between the two ends of an installation, none begins after a success or an invalidation, and
a thread is told that the runtime is installed, or given up, when and only when it is.  The
calls that come next wait for the end of an installation, or are answered at once; so after
one that failed the next thread may install. -/
theorem installGate_sound {τ : Type} [DecidableEq τ] (acts : List (InstallAct τ)) :
    InstallRun.Sound (Run.exec InstallRun.step .new acts).log ∧
      (Run.exec InstallRun.step (.new : InstallRun τ) acts).Responds := by
  have hall : Run.Along InstallRun.step (fun _ _ => True) (.new : InstallRun τ) acts :=
    Run.along_of_mem (fun _ _ _ => trivial) _
  have hidle : InstallIdle ([] : List (InstallEntry τ)) := fun t h => by simp at h
  have hnew : (.new : InstallRun τ).Told ∧ InstallRun.Sound (.new : InstallRun τ).log :=
    ⟨⟨rfl, hidle, not_mem_nil, fun _ => not_mem_nil⟩, History.always_nil⟩
  have hkeep : ∀ (st : InstallRun τ) act, st.Told ∧ InstallRun.Sound st.log → True →
      (st.step act).Told ∧ InstallRun.Sound (st.step act).log :=
    fun st act h _ => InstallRun.step_told h.1 h.2 act
  obtain ⟨htold, hsound⟩ := Run.Along.exec hkeep hnew hall
  exact ⟨hsound, htold.responds⟩

end Nipworker
