import Voyeur.Client.Interpose

/-! # Connecting a socket

`voyeur_create_client_socket` with the calls it makes. The socket is created once, and the
calls of `connect` on it go on until one succeeds or there have been too many. What the
function returns is the socket, however the last of them went.
-/

namespace Voyeur

/-- What a system call returns that has a result of its own or -1. -/
def Outcome.returned : Outcome → ℤ
  | .ok value => value
  | .failed _ => -1

/-- A call on a socket, with its result where it decides something. -/
inductive SocketCall where
  | socket (result : Outcome)
  | connect (sock : ℤ) (result : Outcome)
  | setCloexec (sock : ℤ)
  | close (sock : ℤ)
  deriving DecidableEq

/-- The results of the calls of `connect`, of which there are at most so many. -/
def connects : (tries : ℕ) → (ℕ → Outcome) → List Outcome
  | 0, _ => []
  | tries + 1, connect =>
    connect 0 ::
      if (connect 0).returned < 0 then connects tries fun i => connect (i + 1) else []

/-- `voyeur_create_client_socket`, with the calls it makes and the value it returns. -/
def createConnected (socket : Outcome) (connect : ℕ → Outcome) : List SocketCall × ℤ :=
  let sock := socket.returned
  (.socket socket :: (connects connectRetries connect).map (.connect sock) ++ [.setCloexec sock],
    sock)

/-- The descriptors that are open after a call. -/
def SocketCall.openAfter (fds : List ℤ) : SocketCall → List ℤ
  | .socket (.ok fd) => fd :: fds
  | .close sock => fds.filter (· ≠ sock)
  | .socket (.failed _) | .connect _ _ | .setCloexec _ => fds

/-- The descriptors that are open after some calls, if none was before. -/
def openAfter (calls : List SocketCall) : List ℤ := calls.foldl SocketCall.openAfter []

/-- The results of the calls of `connect` among some calls. -/
def attempts (calls : List SocketCall) : List Outcome :=
  calls.filterMap fun
    | .connect _ result => some result
    | _ => none

/-- A socket that is reported as such is connected, and none is left open otherwise. -/
structure UsableSocket (calls : List SocketCall) (returned : ℤ) : Prop where
  bounded : (attempts calls).length ≤ connectRetries
  stops : ∀ earlier a later, attempts calls = earlier ++ a :: later → 0 ≤ a.returned → later = []
  connected : 0 ≤ returned → ∃ a ∈ attempts calls, 0 ≤ a.returned
  otherwise : (∀ a ∈ attempts calls, a.returned < 0) → returned < 0 ∧ openAfter calls = []

theorem length_connects_le (tries : ℕ) (connect : ℕ → Outcome) :
    (connects tries connect).length ≤ tries := by
  induction tries generalizing connect with
  | zero => rfl
  | succ tries ih =>
    rw [connects, List.length_cons]
    split
    · exact Nat.succ_le_succ (ih _)
    · exact Nat.succ_le_succ (Nat.zero_le _)

theorem connects_stops {tries : ℕ} {connect : ℕ → Outcome} {earlier later : List Outcome}
    {a : Outcome} (h : connects tries connect = earlier ++ a :: later) (ha : 0 ≤ a.returned) :
    later = [] := by
  induction tries generalizing connect earlier with
  | zero => cases earlier <;> cases h
  | succ tries ih =>
    rw [connects] at h
    cases earlier with
    | nil =>
      rw [List.nil_append, List.cons.injEq] at h
      obtain ⟨rfl, hl⟩ := h
      rw [if_neg (by omega)] at hl
      exact hl.symm
    | cons b earlier =>
      rw [List.cons_append, List.cons.injEq] at h
      obtain ⟨-, hl⟩ := h
      split at hl
      · exact ih hl
      · cases earlier <;> cases hl

theorem exists_connects_iff (tries : ℕ) (connect : ℕ → Outcome) :
    (∃ a ∈ connects tries connect, 0 ≤ a.returned) ↔ ∃ i < tries, 0 ≤ (connect i).returned := by
  induction tries generalizing connect with
  | zero => simp [connects]
  | succ tries ih =>
    rw [connects, List.exists_mem_cons_iff, Nat.exists_lt_succ_left]
    split
    · rw [ih]
    · next h => exact iff_of_true (.inl (not_lt.mp h)) (.inl (not_lt.mp h))

section

variable {socket : Outcome} {connect : ℕ → Outcome}

theorem attempts_map_connect (sock : ℤ) (results : List Outcome) :
    attempts (results.map (.connect sock)) = results := by
  rw [attempts, List.filterMap_map]
  exact List.filterMap_some

theorem attempts_createConnected :
    attempts (createConnected socket connect).1 = connects connectRetries connect := by
  have happ (l l' : List SocketCall) : attempts (l ++ l') = attempts l ++ attempts l' :=
    List.filterMap_append
  have hcons (l : List SocketCall) : attempts (.socket socket :: l) = attempts l := rfl
  have hend : attempts [.setCloexec socket.returned] = [] := rfl
  rw [createConnected, List.cons_append, hcons, happ, attempts_map_connect, hend, List.append_nil]

theorem foldl_map_connect (fds : List ℤ) (sock : ℤ) (results : List Outcome) :
    (results.map (SocketCall.connect sock)).foldl SocketCall.openAfter fds = fds := by
  induction results with
  | nil => rfl
  | cons result results ih => exact ih

theorem openAfter_createConnected :
    openAfter (createConnected socket connect).1 = (SocketCall.socket socket).openAfter [] := by
  rw [openAfter, createConnected, List.cons_append, List.foldl_cons, List.foldl_append,
    foldl_map_connect]
  rfl

/--
The socket is usable when it is reported as such just if there is none, or it is connected
within the attempts that are made.
-/
theorem usableSocket_iff (socket : Outcome) (connect : ℕ → Outcome) :
    UsableSocket (createConnected socket connect).1 (createConnected socket connect).2 ↔
      socket.returned < 0 ∨ ∃ i < connectRetries, 0 ≤ (connect i).returned := by
  rw [← exists_connects_iff]
  constructor
  · intro h
    rcases lt_or_ge socket.returned 0 with hs | hs
    · exact .inl hs
    · exact .inr (attempts_createConnected ▸ h.connected hs)
  · intro h
    refine ⟨?_, ?_, ?_, ?_⟩
    · rw [attempts_createConnected]
      exact length_connects_le _ _
    · intro earlier a later ha
      rw [attempts_createConnected] at ha
      exact connects_stops ha
    · intro hr
      rw [attempts_createConnected]
      exact h.resolve_left (not_lt.mpr hr)
    · intro hn
      rw [attempts_createConnected] at hn
      rcases h with hs | ⟨a, ha, hr⟩
      · rw [openAfter_createConnected]
        cases socket with
        | ok fd => exact absurd hs (not_lt.mpr (Int.natCast_nonneg fd))
        | failed errno => exact ⟨hs, rfl⟩
      · exact absurd (hn a ha) (not_lt.mpr hr)

/-- A server that refuses every connection (`ECONNREFUSED`), and a socket that is returned. -/
theorem not_usableSocket_refused :
    ¬ UsableSocket (createConnected (.ok 5) fun _ => .failed 111).1
      (createConnected (.ok 5) fun _ => .failed 111).2 := by
  intro h
  have hn : ¬ ∃ a ∈ attempts (createConnected (.ok 5) fun _ => .failed 111).1,
      0 ≤ a.returned := by decide
  exact hn (h.connected (by decide))

end

/-- The results to come in a process; later ones are successes. -/
def Proc.toCome (s : Proc) (i : ℕ) : Outcome := s.setup.getD i (.ok 0)

theorem Proc.toCome_drop (s : Proc) (n : ℕ) (errno : CInt) :
    { s with setup := s.setup.drop n, errno := errno }.toCome = fun i => s.toCome (n + i) := by
  funext i
  simp only [Proc.toCome, List.getD_eq_getElem?_getD, List.getElem?_drop]

theorem setupCall_eq (s : Proc) :
    ∃ errno, setupCall s =
      .ok (s.toCome 0).returned { s with setup := s.setup.drop 1, errno := errno } := by
  obtain ⟨environ, lib, errno, pid, cwd, setup, real, event, calls, stream⟩ := s
  rcases setup with _ | ⟨_ | e, setup⟩
  · exact ⟨errno, rfl⟩
  · exact ⟨errno, rfl⟩
  · exact ⟨e, rfl⟩

theorem connectLoop_eq (tries : ℕ) (s : Proc) :
    ∃ errno, connectLoop tries s =
      .ok () { s with setup := s.setup.drop (connects tries s.toCome).length, errno := errno } := by
  induction tries generalizing s with
  | zero => exact ⟨s.errno, rfl⟩
  | succ tries ih =>
    obtain ⟨errno, h⟩ := setupCall_eq s
    rw [connectLoop, bind_of_ok h, connects]
    by_cases hr : (s.toCome 0).returned < 0
    · obtain ⟨errno', h'⟩ := ih { s with setup := s.setup.drop 1, errno := errno }
      refine ⟨errno', ?_⟩
      rw [if_pos hr, if_pos hr, h', s.toCome_drop 1 errno, List.drop_drop, List.length_cons]
      simp only [Nat.add_comm]
    · refine ⟨errno, ?_⟩
      rw [if_neg hr, if_neg hr]
      rfl

/-- In a process the function takes the results of just these calls. -/
theorem createClientSocket_eq (s : Proc) (sockpath : CStr) :
    ∃ errno, createClientSocket (some sockpath) s =
      .ok (createConnected (s.toCome 0) fun i => s.toCome (1 + i)).2
        { s with
          setup := s.setup.drop
            (createConnected (s.toCome 0) fun i => s.toCome (1 + i)).1.length,
          errno := errno } := by
  obtain ⟨errno, h⟩ := setupCall_eq s
  obtain ⟨errno', h'⟩ := connectLoop_eq connectRetries
    { s with setup := s.setup.drop 1, errno := errno }
  rw [s.toCome_drop 1 errno, List.drop_drop] at h'
  obtain ⟨errno'', h''⟩ := setupCall_eq
    { s with
      setup := s.setup.drop
        (1 + (connects connectRetries fun i => s.toCome (1 + i)).length), errno := errno' }
  refine ⟨errno'', ?_⟩
  have hl : (createConnected (s.toCome 0) fun i => s.toCome (1 + i)).1.length =
      1 + (connects connectRetries fun i => s.toCome (1 + i)).length + 1 := by
    simp only [createConnected, List.length_append, List.length_cons, List.length_map,
      List.length_nil]
    omega
  rw [createClientSocket, bind_of_ok h, bind_of_ok h', bind_of_ok h'', List.drop_drop, hl]
  rfl

end Voyeur
