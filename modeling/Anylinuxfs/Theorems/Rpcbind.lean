import Mathlib.Data.List.Nodup
import Mathlib.Data.List.TakeWhile
import Anylinuxfs.Rpcbind

/-!
# The services are put back

Whatever the set-up has done, the deferred action starts from the registrations that `unregister` leaves alone. It puts back the
entries that were listed, up to the first one whose version `unregister` leaves alone, since that one is refused.
-/

namespace Anylinuxfs

namespace Rpcbind

variable {Ip : Type} {text : AddrText Ip} {user : List Char} {r r' : Registry} {e : Rpcb}

/-- What `unregister` leaves alone. -/
def kept (r : Registry) : List Rpcb := r.entries.filter fun e => !e.removed

/-- Whether a registration is removed depends on its key. -/
theorem removed_congr {e' : Rpcb} (h : e.key = e'.key) : e.removed = e'.removed := by
  have hversion : (e.prog, e.vers) = (e'.prog, e'.vers) := congrArg (fun k : Nat × Nat × List Char => (k.1, k.2.1)) h
  rw [Rpcb.removed, Rpcb.removed, hversion]

/-! ## Unregistering -/

theorem kept_unset {version : Nat × Nat} (h : version ∈ unregisterVersions) : kept (r.unset version) = kept r := by
  simp only [kept, Registry.unset, List.filter_filter]
  refine List.filter_congr ?_
  intro e _
  by_cases heq : (e.prog, e.vers) = version
  · simp [Rpcb.removed, heq, h]
  · simp [heq]

theorem kept_unregisterFirst (n : Nat) : kept (unregisterFirst n r) = kept r := by
  have hfold : ∀ {versions : List (Nat × Nat)} {r : Registry}, (∀ v ∈ versions, v ∈ unregisterVersions) →
      kept (versions.foldl Registry.unset r) = kept r := by
    intro versions
    induction versions with
    | nil => simp
    | cons v versions ih =>
      intro r hall
      rw [List.foldl_cons, ih fun v' hv' => hall v' (List.mem_cons_of_mem v hv'), kept_unset (hall v List.mem_cons_self)]
  exact hfold fun v hv => List.mem_of_mem_take hv

/-- `unregister` leaves the other versions, and nothing else. -/
theorem entries_unregister : (unregister r).entries = kept r := by
  have hfold : ∀ {versions : List (Nat × Nat)} {r : Registry},
      (versions.foldl Registry.unset r).entries = r.entries.filter fun e => (e.prog, e.vers) ∉ versions := by
    intro versions
    induction versions with
    | nil => simp
    | cons v versions ih =>
      intro r
      rw [List.foldl_cons, ih, Registry.unset, List.filter_filter]
      refine List.filter_congr ?_
      intro e _
      simp [Bool.and_comm]
  rw [unregister, unregisterFirst, List.take_length, hfold, kept]
  refine List.filter_congr ?_
  intro e _
  simp [Rpcb.removed]

/-! ## Registering -/

theorem entries_set (h : r.set e = some r') : r'.entries = r.entries ++ [e] := by
  unfold Registry.set at h
  split at h
  · cases h
  · cases h
    rfl

theorem set_eq_none : r.set e = none ↔ e.key ∈ r.entries.map Rpcb.key := by
  unfold Registry.set
  split
  case isTrue h => simpa using h
  case isFalse h => simpa using h

theorem kept_set (h : r.set e = some r') (he : e.removed = true) : kept r' = kept r := by
  simp [kept, entries_set h, he]

theorem removed_of_mem_registerEntries {entry : Entry Ip} (h : entry ∈ registerEntries text) :
    (entry.rpcb text user).removed = true := by
  have hall : (registerEntries text).all (fun entry => (entry.rpcb text user).removed) = true := rfl
  exact List.all_eq_true.1 hall entry h

theorem kept_registerFirst (n : Nat) : kept (registerFirst text user n r).2 = kept r := by
  have hfold : ∀ {turn : Bool × Registry → Entry Ip → Bool × Registry} {entries : List (Entry Ip)} (s : Bool × Registry),
      (∀ s, ∀ e ∈ entries, kept (turn s e).2 = kept s.2) → kept (entries.foldl turn s).2 = kept s.2 := by
    intro turn entries
    induction entries with
    | nil => exact fun _ _ => rfl
    | cons e entries ih =>
      intro s hall
      rw [List.foldl_cons, ih _ fun s' e' he' => hall s' e' (List.mem_cons_of_mem e he')]
      exact hall s e List.mem_cons_self
  refine hfold (false, r) fun s e he => ?_
  have hremoved : (e.rpcb text user).removed = true := removed_of_mem_registerEntries (List.mem_of_mem_take he)
  cases hset : s.2.set (e.rpcb text user) with
  | none => simp [hset]
  | some r' =>
    simp only [hset]
    exact kept_set hset hremoved

/-- The set-up changes only what `unregister` removes, wherever it fails. -/
theorem kept_setupRpcbindServices (os : HostOs) (users : Users) (services : List (Entry Ip)) (faults : SetupFaults) :
    kept (setupRpcbindServices os text users user services faults r).2 = kept r := by
  have hunregister : kept (unregisterFn users services faults r).2 = kept r := by
    unfold unregisterFn
    split
    · split
      · exact kept_unregisterFirst _
      · rfl
    · exact kept_unregisterFirst _
  have hregister : ∀ r, kept (registerServices os text users user faults r).2 = kept r := by
    intro r
    unfold registerServices
    split
    · split
      · exact kept_registerFirst _
      · rfl
    · exact kept_registerFirst _
  unfold setupRpcbindServices
  split
  · next r' heq =>
    rw [hregister, ← hunregister, heq]
  · next r' heq =>
    rw [← hunregister, heq]

/-! ## Restoring -/

/-- The entry of a registration that is listed. -/
def entryOf (text : AddrText Ip) (e : Rpcb) : Entry Ip :=
  { prog := e.prog, vers := e.vers, netid := e.netid, ip := (parseRpcbAddr text e.addr).1, port := (parseRpcbAddr text e.addr).2,
    owner := e.owner }

theorem servicesToRestore_eq : servicesToRestore text r = (r.entries.filter Rpcb.restored).map (entryOf text) := by
  simp only [servicesToRestore, list, List.filter_map, List.filter_filter]
  refine congrArg (List.map (entryOf text)) (List.filter_congr ?_)
  intro e _
  simp [Rpcb.restored, Bool.and_comm]

/-- What is put back: the entries before the first one whose version has stayed. -/
theorem entries_rpcbSetEntries {listed : List Rpcb} (hdistinct : (listed.map Rpcb.key).Nodup)
    (hfree : ∀ e ∈ listed, e.removed = true → e.key ∉ r.entries.map Rpcb.key)
    (htaken : ∀ e ∈ listed, e.removed = false → e.key ∈ r.entries.map Rpcb.key) :
    (rpcbSetEntries text user r (listed.map (entryOf text))).entries =
      r.entries ++ (listed.takeWhile Rpcb.removed).map fun e => (entryOf text e).rpcb text user := by
  induction listed generalizing r with
  | nil => simp [rpcbSetEntries]
  | cons e listed ih =>
    obtain ⟨he, hlisted⟩ := List.nodup_cons.1 hdistinct
    rw [List.map_cons, rpcbSetEntries]
    cases hset : r.set ((entryOf text e).rpcb text user) with
    | none =>
      have hmem : ((entryOf text e).rpcb text user).key ∈ r.entries.map Rpcb.key := set_eq_none.1 hset
      have hremoved : e.removed = false := by
        by_contra hne
        exact hfree e List.mem_cons_self (by simpa using hne) hmem
      simp [hremoved]
    | some r' =>
      have hnew : e.key ∉ r.entries.map Rpcb.key := by
        intro hmem
        have hnone : r.set ((entryOf text e).rpcb text user) = none := set_eq_none.2 hmem
        rw [hnone] at hset
        cases hset
      have hremoved : e.removed = true := by
        by_contra hne
        exact hnew (htaken e List.mem_cons_self (by simpa using hne))
      have hentries := entries_set hset
      have hkeys : ∀ k, k ∈ r'.entries.map Rpcb.key ↔ k ∈ r.entries.map Rpcb.key ∨ k = e.key := by
        intro k
        rw [hentries, List.map_append, List.mem_append]
        exact or_congr_right List.mem_singleton
      rw [ih hlisted, hentries]
      · simp [hremoved]
      · intro f hf hremoved hmem
        rcases (hkeys _).1 hmem with hmem | heq
        · exact hfree f (List.mem_cons_of_mem e hf) hremoved hmem
        · exact he (List.mem_map.2 ⟨f, hf, heq⟩)
      · intro f hf hremoved
        exact (hkeys _).2 (.inl (htaken f (List.mem_cons_of_mem e hf) hremoved))

/-- The registry after a mount: what has stayed, and what is put back. -/
theorem entries_afterMount (hhost : isHostRpcbind (servicesToRestore text r) = true) (os : HostOs) (users : Users)
    (cleaner : List Char) (faults : SetupFaults) : (afterMount os text users user cleaner faults r).entries =
      kept r ++ ((r.entries.filter Rpcb.restored).takeWhile Rpcb.removed).map fun e => (entryOf text e).rpcb text cleaner := by
  have hkeep : ∀ e, e ∈ kept r ↔ e ∈ r.entries ∧ e.removed = false := by
    intro e
    simp [kept]
  rw [afterMount, if_pos hhost, restoreServices]
  rw [servicesToRestore_eq, entries_rpcbSetEntries, entries_unregister, kept_setupRpcbindServices]
  · exact r.distinct.sublist (List.filter_sublist.map Rpcb.key)
  · intro e _ hremoved hmem
    rw [entries_unregister, kept_setupRpcbindServices] at hmem
    obtain ⟨f, hf, hkey⟩ := List.mem_map.1 hmem
    have hf : f.removed = false := ((hkeep f).1 hf).2
    rw [removed_congr hkey, hremoved] at hf
    cases hf
  · intro e he hremoved
    rw [entries_unregister, kept_setupRpcbindServices]
    exact List.mem_map_of_mem ((hkeep e).2 ⟨(List.mem_filter.1 he).1, hremoved⟩)

/-! ## The condition -/

/-- All that has a property is taken from the front of a list exactly when none of it comes after what has it not. -/
theorem pairwise_iff_mem_takeWhile {α : Type} {p : α → Bool} {l : List α} (hnodup : l.Nodup) :
    l.Pairwise (fun a b => p b = true → p a = true) ↔ ∀ a ∈ l, p a = true → a ∈ l.takeWhile p := by
  induction l with
  | nil => simp
  | cons a l ih =>
    obtain ⟨ha, hl⟩ := List.nodup_cons.1 hnodup
    rw [List.pairwise_cons, ih hl]
    cases hp : p a with
    | false =>
      simp only [List.takeWhile_cons_of_neg (Bool.not_eq_true _ ▸ hp), List.not_mem_nil]
      constructor
      · rintro ⟨hnone, -⟩ b hb hpb
        rcases List.mem_cons.1 hb with rfl | hb
        · simp [hp] at hpb
        · exact Bool.false_ne_true (hnone b hb hpb)
      · intro hnone
        exact ⟨fun b hb hpb => (hnone b (List.mem_cons_of_mem a hb) hpb).elim,
          fun b hb hpb => (hnone b (List.mem_cons_of_mem a hb) hpb).elim⟩
    | true =>
      simp only [List.takeWhile_cons_of_pos hp, List.mem_cons]
      constructor
      · rintro ⟨-, hrest⟩ b hb hpb
        exact hb.imp id fun hb => hrest b hb hpb
      · intro hall
        refine ⟨fun _ _ _ => trivial, fun b hb hpb => ?_⟩
        have hne : b ≠ a := fun heq => ha (heq ▸ hb)
        exact (hall b (.inr hb) hpb).resolve_left hne

/-- What is removed is of one of the three programs. -/
theorem prog_of_removed (h : e.removed = true) : e.prog = rpcprogNfs ∨ e.prog = rpcprogMnt ∨ e.prog = rpcprogStat := by
  have hmem : (e.prog, e.vers) ∈ unregisterVersions := by simpa [Rpcb.removed] using h
  simp only [unregisterVersions, List.mem_cons, Prod.mk.injEq, List.not_mem_nil, or_false] at hmem
  omega

theorem restored_of_removed (h : e.removed = true) (hlisted : isListed e.netid = true) : e.restored = true := by
  have hprog := prog_of_removed h
  simp only [Rpcb.restored, hlisted, Bool.true_and, decide_eq_true_eq]
  tauto

theorem nodup_restored : (r.entries.filter Rpcb.restored).Nodup := r.distinct.of_map.filter _

/-- A registration with the key of another one of the registry is that one. -/
theorem eq_of_key {e' : Rpcb} (he : e ∈ r.entries) (he' : e' ∈ r.entries) (h : e.key = e'.key) : e = e' :=
  List.inj_on_of_nodup_map r.distinct he he' h

/-- The services after a mount. -/
theorem mem_services_afterMount (hhost : isHostRpcbind (servicesToRestore text r) = true) (os : HostOs) (users : Users)
    (cleaner : List Char) (faults : SetupFaults) {service : Nat × Nat × List Char × List Char} :
    service ∈ (afterMount os text users user cleaner faults r).entries.map Rpcb.service ↔
      (∃ e ∈ r.entries, e.removed = false ∧ e.service = service) ∨
      ∃ e ∈ (r.entries.filter Rpcb.restored).takeWhile Rpcb.removed, ((entryOf text e).rpcb text cleaner).service = service := by
  rw [entries_afterMount hhost, List.map_append, List.mem_append, List.map_map]
  simp [kept, and_assoc]

theorem key_of_service {e' : Rpcb} (h : e.service = e'.service) : e.key = e'.key :=
  congrArg (fun s : Nat × Nat × List Char × List Char => (s.1, s.2.1, s.2.2.1)) h

theorem addr_of_service {e' : Rpcb} (h : e.service = e'.service) : e.addr = e'.addr :=
  congrArg (fun s : Nat × Nat × List Char × List Char => s.2.2.2) h

/-- A removed registration whose service is there after a mount was put back as it was. -/
theorem taken_of_service {cleaner : List Char} (he : e ∈ r.entries) (hremoved : e.removed = true)
    (hback : (∃ f ∈ r.entries, f.removed = false ∧ f.service = e.service) ∨
      ∃ f ∈ (r.entries.filter Rpcb.restored).takeWhile Rpcb.removed, ((entryOf text f).rpcb text cleaner).service = e.service) :
    e ∈ (r.entries.filter Rpcb.restored).takeWhile Rpcb.removed ∧
      text.uaddr (parseRpcbAddr text e.addr).1 (parseRpcbAddr text e.addr).2 = e.addr := by
  rcases hback with ⟨f, hf, hkept, heq⟩ | ⟨f, hf, heq⟩
  · rw [removed_congr (key_of_service heq), hremoved] at hkept
    cases hkept
  · have hmem : f ∈ r.entries := (List.mem_filter.1 ((List.takeWhile_sublist _).subset hf)).1
    have hkey : ((entryOf text f).rpcb text cleaner).key = e.key := key_of_service heq
    obtain rfl := eq_of_key hmem he hkey
    exact ⟨hf, addr_of_service heq⟩

/-- What can be put back is all taken from the front of the list. -/
theorem Restorable.taken (h : Restorable text r) (he : e ∈ r.entries) (hremoved : e.removed = true) :
    e ∈ (r.entries.filter Rpcb.restored).takeWhile Rpcb.removed := by
  have hmem : e ∈ r.entries.filter Rpcb.restored :=
    List.mem_filter.2 ⟨he, restored_of_removed hremoved (h.listed e he hremoved)⟩
  exact (pairwise_iff_mem_takeWhile nodup_restored).1 h.first e hmem hremoved

theorem Restorable.service_eq (h : Restorable text r) (he : e ∈ r.entries) (hremoved : e.removed = true) (cleaner : List Char) :
    ((entryOf text e).rpcb text cleaner).service = e.service := by
  simp [Entry.rpcb, entryOf, Rpcb.service, h.written e he hremoved]

/-- The services of an NFS server are put back after a mount, whoever ran it and wherever it failed, exactly when what is removed
can be put back. -/
theorem afterMount_iff (hhost : isHostRpcbind (servicesToRestore text r) = true) (os : HostOs) (users : Users)
    (cleaner : List Char) (faults : SetupFaults) :
    SameServices r (afterMount os text users user cleaner faults r) ↔ Restorable text r := by
  constructor
  · intro hsame
    have htaken : ∀ e ∈ r.entries, e.removed = true → e ∈ (r.entries.filter Rpcb.restored).takeWhile Rpcb.removed ∧
        text.uaddr (parseRpcbAddr text e.addr).1 (parseRpcbAddr text e.addr).2 = e.addr := by
      intro e he hremoved
      have hback := (hsame e.service (prog_of_removed hremoved)).1 (List.mem_map_of_mem he)
      exact taken_of_service he hremoved ((mem_services_afterMount hhost os users cleaner faults).1 hback)
    constructor
    · intro e he hremoved
      have hrestored := (List.mem_filter.1 ((List.takeWhile_sublist _).subset (htaken e he hremoved).1)).2
      rw [Rpcb.restored, Bool.and_eq_true] at hrestored
      exact hrestored.1
    · exact fun e he hremoved => (htaken e he hremoved).2
    · refine (pairwise_iff_mem_takeWhile nodup_restored).2 ?_
      exact fun e he hremoved => (htaken e (List.mem_filter.1 he).1 hremoved).1
  · intro hrestorable service _
    rw [mem_services_afterMount hhost]
    constructor
    · intro hmem
      obtain ⟨e, he, rfl⟩ := List.mem_map.1 hmem
      cases hremoved : e.removed with
      | false => exact .inl ⟨e, he, hremoved, rfl⟩
      | true => exact .inr ⟨e, hrestorable.taken he hremoved, hrestorable.service_eq he hremoved cleaner⟩
    · rintro (⟨e, he, -, rfl⟩ | ⟨e, he, rfl⟩)
      · exact List.mem_map_of_mem he
      · have hmem : e ∈ r.entries := (List.mem_filter.1 ((List.takeWhile_sublist _).subset he)).1
        rw [hrestorable.service_eq hmem (List.mem_takeWhile_imp he)]
        exact List.mem_map_of_mem hmem

/-! ## A server of a user -/

/-- The two addresses that stand for any, and the universal addresses with them. -/
def anyText : AddrText (List Char) where
  parseIp ip := if ip = "0.0.0.0".toList ∨ ip = "::".toList then some ip else none
  anyV4 := "0.0.0.0".toList
  anyV6 := "::".toList
  uaddr ip port := ip ++ '.' :: Nat.toDigits 10 (port.toNat / 256) ++ '.' :: Nat.toDigits 10 (port.toNat % 256)

/-- The port 2049 of any address. -/
def nfsAddr : List Char := "0.0.0.0.8.1".toList

/-- A server of alice, with version 3. -/
def aliceServer : Registry where
  entries := [⟨rpcprogNfs, 3, "udp".toList, nfsAddr, "alice".toList⟩, ⟨rpcprogNfs, 3, "tcp".toList, nfsAddr, "alice".toList⟩]
  distinct := by decide

theorem written_aliceServer : ∀ e ∈ aliceServer.entries,
    anyText.uaddr (parseRpcbAddr anyText e.addr).1 (parseRpcbAddr anyText e.addr).2 = e.addr := by decide

/-- Alice mounts, and the set-up succeeds. -/
theorem afterMount_aliceServer : SameServices aliceServer (afterMount .linux anyText ⟨1000, some "alice".toList, none, none⟩
    "alice".toList "alice".toList ⟨true, none, none⟩ aliceServer) :=
  (afterMount_iff (by decide) _ _ _ _).2
    { listed := by decide
      written := fun e he _ => written_aliceServer e he
      first := by decide }

/-- A server of alice, with version 2 before version 3. -/
def aliceServerV2 : Registry where
  entries := [⟨rpcprogNfs, 2, "udp".toList, nfsAddr, "alice".toList⟩, ⟨rpcprogNfs, 3, "udp".toList, nfsAddr, "alice".toList⟩]
  distinct := by decide

/-- Version 2 has stayed, so that it is refused, and version 3 is not tried any more. -/
theorem afterMount_false : ¬ ∀ (os : HostOs) (text : AddrText (List Char)) (users : Users) (user cleaner : List Char)
    (faults : SetupFaults) (r : Registry), isHostRpcbind (servicesToRestore text r) = true →
      SameServices r (afterMount os text users user cleaner faults r) := by
  intro hall
  have hsame := hall .linux anyText ⟨1000, some "alice".toList, none, none⟩ "alice".toList "alice".toList ⟨true, none, none⟩
    aliceServerV2 (by decide)
  have hlost : (rpcprogNfs, 3, "udp".toList, nfsAddr) ∈ (afterMount .linux anyText ⟨1000, some "alice".toList, none, none⟩
      "alice".toList "alice".toList ⟨true, none, none⟩ aliceServerV2).entries.map Rpcb.service :=
    (hsame _ (.inl rfl)).1 (by decide)
  revert hlost
  decide

end Rpcbind

end Anylinuxfs
