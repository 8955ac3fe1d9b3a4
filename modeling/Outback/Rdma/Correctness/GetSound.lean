import Outback.Rdma.Protocol
import Outback.Rdma.Correctness.AckedWrites

/-!
# `Rdma.Correctness.GetSound` — when every get is answered with the latest write

`outback_get_callback` replies `status = true` with the data of whatever entry the client's slot number names. So a get of
a key that is not stored, and one whose client still has an old seed of the row, are answered with another key's data
(`get_of_absent_key`). **`get_sound`**: in every run of any number of clients, with requests and replies delivered in any
order, in which each handled request is `RequestOk` for the server it reaches, every get reply carries the latest handled
write of its key.

`TableInv` is the invariant: the occupied slots are exactly the own slots of the written keys, with their latest values.
-/

namespace Outback

open RdmaServer

/-- The key's own slot is occupied by an entry of the key. -/
def RdmaServer.StoresKey (H : HashFn) (s : RdmaServer) (k : U64) : Prop :=
  s.Occupied (s.lookup.row H k) (s.slot H (s.lookup.row H k) k) ∧
    (s.entryAt (s.lookup.row H k) (s.slot H (s.lookup.row H k) k)).key = k

/-- The slot number names the entry of the key's own slot. -/
def RdmaServer.NamesOwn (H : HashFn) (s : RdmaServer) (loc : Nat) (k : U64) : Prop :=
  s.addr (locRow loc) (locSlot loc) = s.addr (s.lookup.row H k) (s.slot H (s.lookup.row H k) k)

/-- What a request must find for the callback to do what its client means.
    * A get or an update: the key is stored, and the slot number names its entry.
    * A put: the row fits into the 32-bit slot number, and the value is placed, not diverted: the slot is empty or can be
      freed by a new seed, and the new index fits into 32 bits, or the fingerprint that matches is that of the key.
    * A delete of a stored key: the slot number is that of the key's own slot. -/
def RequestOk (H : HashFn) (s : RdmaServer) : Request → Prop
  | .get loc k => s.StoresKey H k ∧ s.NamesOwn H loc k
  | .put _ k _ => s.lookup.row H k < 2 ^ 30 ∧
      match s.status H (s.lookup.row H k) k with
      | .good | .emptyExists => s.packed.num < 2 ^ 32
      | .maybeUpdate => (s.entryAt (s.lookup.row H k) (s.slot H (s.lookup.row H k) k)).key = k
      | .full => False
  | .update loc k _ => s.StoresKey H k ∧ s.NamesOwn H loc k
  | .remove loc k => s.StoresKey H k →
      locRow loc = s.lookup.row H k ∧ locSlot loc = s.slot H (s.lookup.row H k) k

/-- The condition on a step: the request that is handled is `RequestOk`. -/
def HandlesOk (H : HashFn) (net : RdmaNet) : NetStep → Prop
  | .handle i => ∀ client req, net.requests[i]? = some (client, .request req) → RequestOk H net.server req
  | .send _ _ | .receive _ => True

/-- A get reply with `status = true` carries the latest write, and a key that is not stored is answered `false`. -/
def Answer.Sound (a : Answer) : Prop :=
  match a.req with
  | .get _ _ => (a.reply.status = true → a.expected = some a.reply.val) ∧ (a.expected = none → a.reply.status = false)
  | _ => True

/-! ## The table -/

/-- The occupied slots are the own slots of the written keys. -/
structure TableInv (H : HashFn) (s : RdmaServer) (written : U64 → Option U64) : Prop where
  wf : RdmaWf s
  holds : ∀ k v, written k = some v → s.Holds H k v
  placed : ∀ r t, r < s.lookup.numBuckets → s.Occupied r t →
    s.lookup.row H (s.entryAt r t).key = r ∧ s.slot H r (s.entryAt r t).key = t ∧ (written (s.entryAt r t).key).isSome

section Table

variable {H : HashFn} {s s' : RdmaServer} {written : U64 → Option U64} {k : U64}

/-- A stored key has a latest write, and holds it. -/
theorem TableInv.of_storesKey (h : TableInv H s written) (hk : s.StoresKey H k) :
    ∃ v, written k = some v ∧ s.Holds H k v := by
  obtain ⟨-, -, hsome⟩ := h.placed _ _ (DataPlaneLudo.row_lt H h.wf.pos k) hk.1
  rw [hk.2] at hsome
  obtain ⟨v, hv⟩ := Option.isSome_iff_exists.mp hsome
  exact ⟨v, hv, h.holds k v hv⟩

/-- An occupied slot with an entry of `k` is the own slot of `k`. -/
theorem TableInv.own_of_key (h : TableInv H s written) {r : Nat} {t : Slot} (hr : r < s.lookup.numBuckets)
    (ht : s.Occupied r t) (hk : (s.entryAt r t).key = k) :
    r = s.lookup.row H k ∧ t = s.slot H (s.lookup.row H k) k ∧ s.StoresKey H k := by
  obtain ⟨hrow, hslot, -⟩ := h.placed r t hr ht
  rw [hk] at hrow hslot
  subst hrow
  exact ⟨rfl, hslot.symm, by rw [StoresKey, hslot]; exact ⟨ht, hk⟩⟩

/-- What a request must find makes its write land. -/
theorem RequestOk.lands {req : Request} {v : U64} (hw : req.Writes k v) (hloc : locRow req.loc = s.lookup.row H k)
    (hok : RequestOk H s req) : s.WriteLands H req := by
  cases hw with
  | put loc =>
      have hok := hok.2
      unfold WriteLands
      simp only [show locRow loc = s.lookup.row H k from hloc]
      cases hst : s.status H (s.lookup.row H k) k with
      | good | emptyExists =>
          rw [hst] at hok
          exact Or.inl hok
      | maybeUpdate =>
          rw [hst] at hok
          exact hok
      | full =>
          rw [hst] at hok
          exact absurd hok id
  | update loc =>
      obtain ⟨⟨hocc, hkey⟩, hname⟩ := hok
      exact ⟨hocc, hkey, Or.inl hname⟩

/-- Writing an entry back under its own key. -/
theorem rewrite_key {a : Nat} {v : U64} {r : Nat} {t : Slot} (hk : (s.packed.rawArray a).key = k) :
    ((s.rewrite a k v).entryAt r t).key = (s.entryAt r t).key := by
  show (Function.update s.packed.rawArray a ⟨k, 64, v⟩ (s.addr r t)).key = _
  rw [Function.update_apply]
  split
  · rename_i ha
    rw [entryAt, ha]
    exact hk.symm
  · rfl

theorem Request.record_of_ne {req : Request} (hk : req.key ≠ k) : req.record written k = written k := by
  cases req with
  | get loc k' => rfl
  | put loc k' w => exact Function.update_of_ne (Ne.symm hk) ..
  | update loc k' w => exact Function.update_of_ne (Ne.symm hk) ..
  | remove loc k' => exact Function.update_of_ne (Ne.symm hk) ..

/-- The written keys hold their values after the request. -/
theorem TableInv.holds_effect {req : Request} (h : TableInv H s written) (hok : RequestOk H s req)
    (hloc : ∀ loc k v, req = .put loc k v → locRow loc = s.lookup.row H k) (he : Effect H s req s') :
    ∀ k v, req.record written k = some v → s'.Holds H k v := by
  intro k v hv
  by_cases hk : req.key = k
  · subst hk
    cases req with
    | get loc k =>
        cases he
        exact h.holds k v hv
    | put loc k w =>
        obtain rfl : w = v := by simpa [Request.record, Request.key] using hv
        have hl := hloc loc k w rfl
        exact (put_holds_iff h.wf hl he).mpr (RequestOk.lands (.put loc) hl hok)
    | update loc k w =>
        obtain rfl : w = v := by simpa [Request.record, Request.key] using hv
        obtain ⟨⟨hocc, hkey⟩, hname⟩ := hok
        exact (update_holds_iff h.wf he).mpr ⟨hocc, hkey, Or.inl hname⟩
    | remove loc k => simp [Request.record, Request.key] at hv
  · rw [Request.record_of_ne hk] at hv
    exact (h.holds k v hv).effect hk he

/-- Every occupied slot is the own slot of a written key. -/
def PlacedIn (H : HashFn) (s : RdmaServer) (written : U64 → Option U64) : Prop :=
  ∀ r t, r < s.lookup.numBuckets → s.Occupied r t →
    s.lookup.row H (s.entryAt r t).key = r ∧ s.slot H r (s.entryAt r t).key = t ∧ (written (s.entryAt r t).key).isSome

/-- A slot that keeps its entry while `k` is written. -/
theorem TableInv.written_update (h : TableInv H s written) {r : Nat} {t : Slot} (hr : r < s.lookup.numBuckets)
    (ht : s.Occupied r t) (v : U64) : (Function.update written k (some v) (s.entryAt r t).key).isSome := by
  rw [Function.update_apply]
  split
  · rfl
  · exact (h.placed r t hr ht).2.2

/-- A slot of another key while `k` is forgotten. -/
theorem TableInv.written_forget (h : TableInv H s written) {r : Nat} {t : Slot} (hr : r < s.lookup.numBuckets)
    (ht : s.Occupied r t) (hne : (s.entryAt r t).key ≠ k) :
    (Function.update written k none (s.entryAt r t).key).isSome := by
  rw [Function.update_of_ne hne]
  exact (h.placed r t hr ht).2.2

/-- The key goes into its own empty slot. -/
theorem TableInv.placed_insert (h : TableInv H s written) (hnum : s.packed.num < 2 ^ 32) (k v : U64) :
    PlacedIn H (s.insertAt H (s.lookup.row H k) (s.slot H (s.lookup.row H k) k) k v)
      (Function.update written k (some v)) := by
  intro r t hr ht
  rw [RdmaServer.Occupied, insertAt_word] at ht
  split at ht
  · -- the new slot: its entry is the one that was pushed
    rename_i hslot
    obtain ⟨rfl, rfl⟩ := hslot
    have hent : (s.insertAt H (s.lookup.row H k) (s.slot H (s.lookup.row H k) k) k v).entryAt (s.lookup.row H k)
        (s.slot H (s.lookup.row H k) k) = ⟨k, 8, v⟩ := by
      rw [entryAt, RdmaServer.addr, insertAt_word, if_pos ⟨rfl, rfl⟩, addrOf_newWord, Nat.mod_eq_of_lt hnum]
      exact Function.update_self ..
    rw [hent]
    exact ⟨rfl, rfl, by simp⟩
  · rename_i hslot
    have hent : (s.insertAt H (s.lookup.row H k) (s.slot H (s.lookup.row H k) k) k v).entryAt r t = s.entryAt r t := by
      rw [entryAt, RdmaServer.addr, insertAt_word, if_neg hslot]
      exact PackedData.push_rawArray_lt (h.wf.addr_lt r t hr ht)
    rw [hent]
    exact ⟨(h.placed r t hr ht).1, (h.placed r t hr ht).2.1, h.written_update hr ht v⟩

/-- The row of the key is placed anew under `seed`. -/
theorem TableInv.placed_reseed (h : TableInv H s written) (hnum : s.packed.num < 2 ^ 32) {seed : U8} (v : U64)
    (hseed : forceSeed H (s.rowKeys (s.lookup.row H k) k) = some seed) :
    PlacedIn H (s.reseed H (s.lookup.row H k) k v seed) (Function.update written k (some v)) := by
  intro r t hr ht
  -- an old entry is where its word says, also behind the push
  have hentry : ∀ w, (s.reseed H (s.lookup.row H k) k v seed).word r t = w → addrOf w < s.packed.num →
      (s.reseed H (s.lookup.row H k) k v seed).entryAt r t = s.packed.rawArray (addrOf w) := by
    intro w hw ha
    rw [entryAt, RdmaServer.addr, hw]
    exact PackedData.push_rawArray_lt ha
  by_cases hr' : r = s.lookup.row H k
  · subst hr'
    rcases reseed_word_cases hseed t with hz | ⟨rfl, hnew⟩ | ⟨t₀, ht₀, rfl, hold⟩
    · rw [RdmaServer.Occupied, hz] at ht
      exact absurd ht (by decide)
    · have hent : (s.reseed H (s.lookup.row H k) k v seed).entryAt (s.lookup.row H k) (seedSlot H seed k)
          = ⟨k, 8, v⟩ := by
        rw [entryAt, RdmaServer.addr, hnew, addrOf_newWord, Nat.mod_eq_of_lt hnum]
        exact Function.update_self ..
      rw [hent, reseed_slot, if_pos rfl]
      exact ⟨rfl, rfl, by simp⟩
    · have hent : _ = s.entryAt (s.lookup.row H k) t₀ := hentry _ hold (h.wf.addr_lt _ t₀ hr ht₀)
      rw [hent, reseed_slot, if_pos rfl]
      exact ⟨(h.placed _ t₀ hr ht₀).1, rfl, h.written_update hr ht₀ v⟩
  · rw [RdmaServer.Occupied, reseed_word_of_ne hr'] at ht
    have hent : _ = s.entryAt r t := hentry _ (reseed_word_of_ne hr') (h.wf.addr_lt r t hr ht)
    rw [hent, reseed_slot, if_neg hr']
    exact ⟨(h.placed r t hr ht).1, (h.placed r t hr ht).2.1, h.written_update hr ht v⟩

/-- An entry is written back under its own key. -/
theorem TableInv.placed_rewrite (h : TableInv H s written) {a : Nat} (hk : (s.packed.rawArray a).key = k) (v : U64) :
    PlacedIn H (s.rewrite a k v) (Function.update written k (some v)) := by
  intro r t hr ht
  have hkey : ((s.rewrite a k v).entryAt r t).key = (s.entryAt r t).key := rewrite_key hk
  rw [hkey]
  exact ⟨(h.placed r t hr ht).1, (h.placed r t hr ht).2.1, h.written_update hr ht v⟩

/-- The slot at `loc`, with an entry of `k`, is erased; it is the only one of `k`. -/
theorem TableInv.placed_erase (h : TableInv H s written) {loc : Nat} (hk : (s.entryAt (locRow loc) (locSlot loc)).key = k)
    (hown : s.StoresKey H k → locRow loc = s.lookup.row H k ∧ locSlot loc = s.slot H (s.lookup.row H k) k) :
    PlacedIn H (s.erase (locRow loc) (locSlot loc)) (Function.update written k none) := by
  intro r t hr ht
  rw [RdmaServer.Occupied, erase_word] at ht
  split at ht
  · exact absurd ht (by decide)
  · rename_i hslot
    have hother : (s.entryAt r t).key ≠ k := by
      intro hkey
      obtain ⟨rfl, rfl, hstores⟩ := h.own_of_key hr ht hkey
      obtain ⟨hrow, hsl⟩ := hown hstores
      exact hslot ⟨hrow.symm, hsl.symm⟩
    have hent : (s.erase (locRow loc) (locSlot loc)).entryAt r t = s.entryAt r t := by
      rw [entryAt, RdmaServer.addr, erase_word, if_neg hslot]
      refine Function.update_of_ne ?_ ..
      intro ha
      rw [entryAt, RdmaServer.addr, ha] at hother
      exact hother hk
    rw [hent]
    exact ⟨(h.placed r t hr ht).1, (h.placed r t hr ht).2.1, h.written_forget hr ht hother⟩

/-- After the request every occupied slot is the own slot of a written key. -/
theorem TableInv.placed_effect {req : Request} (h : TableInv H s written) (hok : RequestOk H s req)
    (hloc : ∀ loc k v, req = .put loc k v → locRow loc = s.lookup.row H k) (he : Effect H s req s') :
    PlacedIn H s' (req.record written) := by
  cases he with
  | read => exact h.placed
  | @insert loc k v hst hroom =>
      have hl := hloc loc k v rfl
      rw [hl] at hst ⊢
      have hnum : s.packed.num < 2 ^ 32 := by simpa [hst] using hok.2
      exact h.placed_insert hnum k v
  | @rewrite loc k v hst hk => exact h.placed_rewrite hk v
  | @collide loc k v hst hk hroom =>
      have hl := hloc loc k v rfl
      rw [hl] at hst hk
      have hsame := hok.2
      simp only [hst] at hsame
      exact absurd hsame hk
  | @reseed loc k v hst seed hseed hroom =>
      have hl := hloc loc k v rfl
      rw [hl] at hst hseed ⊢
      have hnum : s.packed.num < 2 ^ 32 := by simpa [hst] using hok.2
      exact h.placed_reseed hnum v hseed
  | @overflow loc k v hst hroom =>
      have hl := hloc loc k v rfl
      rw [hl] at hst
      have hfalse := hok.2
      simp only [hst] at hfalse
  | @update loc k v hk => exact h.placed_rewrite hk v
  | @miss loc k v hk hroom =>
      obtain ⟨⟨hocc, hkey⟩, hname⟩ := hok
      rw [entryAt, hname] at hk
      exact absurd hkey hk
  | @erase loc k hk => exact h.placed_erase hk hok
  | @absent loc k hk =>
      intro r t hr ht
      have hother : (s.entryAt r t).key ≠ k := by
        intro hkey
        obtain ⟨-, -, hstores⟩ := h.own_of_key hr ht hkey
        obtain ⟨hrow, hsl⟩ := hok hstores
        rw [hrow, hsl] at hk
        exact hk hstores.2
      exact ⟨(h.placed r t hr ht).1, (h.placed r t hr ht).2.1, h.written_forget hr ht hother⟩

/-- **One request keeps the table.** -/
theorem TableInv.effect {req : Request} (h : TableInv H s written) (hok : RequestOk H s req)
    (hloc : ∀ loc k v, req = .put loc k v → locRow loc = s.lookup.row H k) (he : Effect H s req s') :
    TableInv H s' (req.record written) :=
  ⟨h.wf.effect he, h.holds_effect hok hloc he, h.placed_effect hok hloc he⟩

end Table

/-! ## The bulk load -/

/-- The loaded table: the values are those `lookUp` of the control plane answers. -/
theorem Loaded.tableInv {H : HashFn} {cp : ExactLudo} {existKeys : List U64} {alien : U64 → Bool}
    {mem : Nat → PackedStruct} {s : RdmaServer} (h : Loaded H cp existKeys)
    (hok : RdmaServer.setupLudoTable H cp existKeys alien mem = .ok s) : TableInv H s (cp.lookUp H) := by
  have hwf := h.rdmaWf hok
  obtain ⟨s', hok', hlk, hbk, hnum, hel, hload⟩ := rdmaSetup_ok H cp existKeys alien mem
  obtain rfl : s' = s := Except.ok.inj (hok'.symm.trans hok)
  have hbound := h.bound
  have hword : ∀ r t, s'.word r t = (cp.remoteBuckets H).word r t := fun r t => by rw [RdmaServer.word, hbk]
  -- the entry of a stored pair
  have hentry : ∀ b s, cp.Stored b s → s'.packed.rawArray ((cp.buckets.get b).values s).toNat
      = ⟨(cp.buckets.get b).keys s, 8, (cp.buckets.get b).values s⟩ := by
    intro b s hs
    obtain ⟨i, hk, hv⟩ := h.stored b s hs
    have hi := i.isLt
    have htoNat : ((cp.buckets.get b).values s).toNat = i := by
      rw [hv, BitVec.toNat_ofNat]
      exact Nat.mod_eq_of_lt (by omega)
    rw [htoNat, hload i, hk, hv]
  refine ⟨hwf, fun k v hv => ?_, fun r t hr ht => ?_⟩
  · obtain ⟨b, s, hs, rfl, rfl⟩ := h.inv.lookUp_eq_some_iff.mp hv
    have hrow : s'.lookup.row H ((cp.buckets.get b).keys s) = b := by rw [hlk]; exact h.inv.dataPlane_row alien hs
    have hslot : s'.slot H b ((cp.buckets.get b).keys s)
        = seedSlot H (cp.buckets.get b).seed ((cp.buckets.get b).keys s) := by rw [RdmaServer.slot, hlk]; rfl
    have hlt := h.value_lt hs
    have hw : s'.word b (s'.slot H b ((cp.buckets.get b).keys s)) = bulkWord ((cp.buckets.get b).values s) := by
      rw [hword, hslot]
      exact h.inv.seedsSeparate.remoteBuckets_stored hs
    have haddr : s'.addr b (s'.slot H b ((cp.buckets.get b).keys s)) = ((cp.buckets.get b).values s).toNat := by
      rw [RdmaServer.addr, hw, addrOf_bulkWord (by omega)]
    refine ⟨?_, ?_, ?_, ?_⟩
    · rw [hrow, RdmaServer.Occupied, hw]
      exact occ_bulkWord (by omega)
    · rw [hrow, haddr, hnum]
      exact hlt
    · rw [hrow, entryAt, haddr, hentry b s hs]
    · rw [hrow, entryAt, haddr, hentry b s hs]
  · have hr' : r < cp.numBuckets := by rw [hlk] at hr; exact hr
    rw [RdmaServer.Occupied, hword] at ht
    obtain ⟨s, hs, hst, ha⟩ := h.occupied hr' ht
    have hent : s'.entryAt r t = ⟨(cp.buckets.get r).keys s, 8, (cp.buckets.get r).values s⟩ := by
      rw [entryAt, RdmaServer.addr, hword, ha, hentry r s hs]
    rw [hent]
    refine ⟨by rw [hlk]; exact h.inv.dataPlane_row alien hs, ?_, ?_⟩
    · rw [RdmaServer.slot, hlk]
      exact hst
    · exact Option.isSome_iff_exists.mpr ⟨_, h.inv.lookUp_eq_some_iff.mpr ⟨r, s, hs, rfl, rfl⟩⟩

/-! ## The network -/

/-- The slot number of a request comes from some slot of its key's row. -/
def Message.FromRow (H : HashFn) (dp : DataPlaneLudo) : Message → Prop
  | .request req => locRow req.loc = dp.row H req.key % 2 ^ 30
  | .bareKey _ => True

structure NetInv (H : HashFn) (net : RdmaNet) : Prop where
  table : TableInv H net.server net.written
  sameRows : ∀ c k, (net.clients c).row H k = net.server.lookup.row H k
  requests : ∀ m ∈ net.requests, m.2.FromRow H net.server.lookup
  replies : ∀ a ∈ net.replies, a.Sound

section Net

variable {H : HashFn} {net net' : RdmaNet}

theorem locRow_remoteLoc (dp : DataPlaneLudo) (k : U64) : locRow (dp.remoteLoc H k) = dp.row H k % 2 ^ 30 := by
  have := (dp.slot H k).isLt
  unfold locRow DataPlaneLudo.remoteLoc
  omega

/-- What a client sends is from the key's row, whatever its seeds. -/
theorem message_fromRow {dp dp' : DataPlaneLudo} (hrows : ∀ k, dp.row H k = dp'.row H k) (call : ClientCall) :
    (dp.message H call).FromRow H dp' := by
  have hloc : ∀ key, locRow (dp.remoteLoc H key) = dp'.row H key % 2 ^ 30 := by
    intro key
    rw [locRow_remoteLoc, hrows]
  cases call with
  | search key => exact hloc key
  | put key val => exact hloc key
  | update key val => exact hloc key
  | remove key => trivial
  | removeAt key => exact hloc key

/-- A request changes no row of the server's index. -/
theorem effect_row {s s' : RdmaServer} {req : Request} (he : Effect H s req s') (k : U64) :
    s'.lookup.row H k = s.lookup.row H k := by
  cases he <;> rfl

/-- The reply to a get that finds what it must is sound. -/
theorem TableInv.get_reply {s s' : RdmaServer} {written : U64 → Option U64} (h : TableInv H s written) {loc : Nat}
    {k : U64} {reply : ReplyValue} (hok : RequestOk H s (.get loc k)) (hhandle : s.handle H (.get loc k) = .ok (s', reply)) :
    reply.status = true ∧ written k = some reply.val := by
  obtain ⟨hstores, hname⟩ := hok
  obtain ⟨v, hv, hholds⟩ := h.of_storesKey hstores
  obtain ⟨r, hr, hhandle⟩ := Lib.bind_eq_ok.mp hhandle
  cases hhandle
  unfold outbackGetCallback at hr
  obtain ⟨b, hb, hr⟩ := Lib.bind_eq_ok.mp hr
  obtain ⟨-, rfl⟩ := LudoBuckets.row_eq_ok hb
  obtain ⟨e, he, hr⟩ := Lib.bind_eq_ok.mp hr
  cases hr
  have hent : e = s.entryAt (locRow loc) (locSlot loc) := (PackedData.entry_eq_ok he).2
  refine ⟨rfl, ?_⟩
  rw [hv, hent, entryAt, hname]
  exact congrArg some hholds.data.symm

/-- A message that the server handles. -/
theorem NetInv.deliver {client : Nat} {msg : Message} (h : NetInv H net) (hmsg : msg.FromRow H net.server.lookup)
    (hok : ∀ req, msg = .request req → RequestOk H net.server req) (hstep : net.deliver H client msg = .ok net') :
    NetInv H net' := by
  cases msg with
  | bareKey key => cases hstep
  | request req =>
      have hreq := hok req rfl
      obtain ⟨⟨server, reply⟩, hhandle, hstep⟩ := Lib.bind_eq_ok.mp hstep
      cases hstep
      have he := (handle_effect hhandle).1
      -- no wrap in the slot number of a put: its row is the key's
      have hloc : ∀ loc k v, req = .put loc k v → locRow loc = net.server.lookup.row H k := by
        rintro loc k v rfl
        exact hmsg.trans (Nat.mod_eq_of_lt hreq.1)
      refine ⟨h.table.effect hreq hloc he, fun c k => ?_, fun m hm => ?_, fun a ha => ?_⟩
      · rw [h.sameRows, effect_row he]
      · have hfrom := h.requests m hm
        obtain ⟨c, msg⟩ := m
        cases msg with
        | bareKey key => trivial
        | request req' => exact hfrom.trans (by rw [effect_row he])
      · rcases List.mem_append.mp ha with ha | ha
        · exact h.replies a ha
        · obtain rfl := List.mem_singleton.mp ha
          cases req with
          | get loc k =>
              obtain ⟨hstatus, hval⟩ := h.table.get_reply hreq hhandle
              refine ⟨fun _ => hval, fun hnone => ?_⟩
              rw [show net.written k = none from hnone] at hval
              cases hval
          | put loc k v => trivial
          | update loc k v => trivial
          | remove loc k => trivial

/-- A client's copy of the index keeps its rows. -/
theorem processReply_row {dp dp' : DataPlaneLudo} {req : Request} {reply : ReplyValue}
    (h : dp.processReply H req reply = .ok dp') (k : U64) : dp'.row H k = dp.row H k := by
  cases req with
  | put loc key val =>
      change dp.processPutReply H key reply = .ok dp' at h
      unfold DataPlaneLudo.processPutReply at h
      split at h
      · have hEq := Except.ok.inj h
        rw [← hEq]
        split
        · exact DataPlaneLudo.updateSeed_row ..
        · rfl
      · cases h
  | get loc key => cases h; rfl
  | update loc key val => cases h; rfl
  | remove loc key => cases h; rfl

/-- **One step of the network.** -/
theorem NetInv.step {a : NetStep} (h : NetInv H net) (hok : HandlesOk H net a) (hstep : net.step H a = .ok net') :
    NetInv H net' := by
  cases a with
  | send client call =>
      cases hstep
      refine ⟨h.table, h.sameRows, fun m hm => ?_, h.replies⟩
      rcases List.mem_append.mp hm with hm | hm
      · exact h.requests m hm
      · obtain rfl := List.mem_singleton.mp hm
        exact message_fromRow (h.sameRows client) call
  | handle i =>
      unfold RdmaNet.step at hstep
      cases hi : net.requests[i]? with
      | none =>
          simp only [hi] at hstep
          cases hstep
          exact h
      | some m =>
          obtain ⟨client, msg⟩ := m
          simp only [hi] at hstep
          have hinv : NetInv H { net with requests := net.requests.eraseIdx i } :=
            ⟨h.table, h.sameRows, fun m hm => h.requests m (List.mem_of_mem_eraseIdx hm), h.replies⟩
          refine hinv.deliver (h.requests _ (List.mem_of_getElem? hi)) ?_ hstep
          rintro req rfl
          exact hok client req hi
  | receive i =>
      unfold RdmaNet.step at hstep
      cases hi : net.replies[i]? with
      | none =>
          simp only [hi] at hstep
          cases hstep
          exact h
      | some a =>
          simp only [hi] at hstep
          obtain ⟨dp, hdp, hstep⟩ := Lib.bind_eq_ok.mp hstep
          cases hstep
          refine ⟨h.table, fun c k => ?_, h.requests, fun b hb => h.replies b (List.mem_of_mem_eraseIdx hb)⟩
          by_cases hc : c = a.client
          · subst hc
            show (Function.update net.clients a.client dp a.client).row H k = _
            rw [Function.update_self, processReply_row hdp, h.sameRows]
          · show (Function.update net.clients a.client dp c).row H k = _
            rw [Function.update_of_ne hc, h.sameRows]

end Net

/-- **Get soundness.** From any bulk-loaded table, with any number of clients that start from the server's seeds: in every
    run whose handled requests all find what they must, every get reply in flight carries the latest handled write of its
    key at the moment it was handled, or its bulk-loaded value. -/
theorem get_sound {H : HashFn} {cp : ExactLudo} {existKeys : List U64} {alien : U64 → Bool}
    {mem : Nat → PackedStruct} {s₀ : RdmaServer} {net : RdmaNet} (hld : Loaded H cp existKeys)
    (hok : RdmaServer.setupLudoTable H cp existKeys alien mem = .ok s₀)
    (hrun : Lib.Reaches (RdmaNet.step H) (HandlesOk H) (s₀.net (cp.lookUp H)) net) : ∀ a ∈ net.replies, a.Sound := by
  have hstart : NetInv H (s₀.net (cp.lookUp H)) :=
    ⟨hld.tableInv hok, fun _ _ => rfl, fun m hm => absurd hm List.not_mem_nil,
      fun a ha => absurd ha List.not_mem_nil⟩
  have hinv := hrun.invariant hstart (fun _ _ _ h hc hstep => h.step hc hstep)
  exact hinv.replies

/-- The network of the one-key server. -/
def rowNet : RdmaNet := (rowServer 423 0 [7]).net ((rowTable 423 0 [7]).lookUp fastHasher64)

/-- That network after a put of key 9, which goes to slot 3 of row 320. -/
def rowNetPut : RdmaNet where
  server := (rowServer 423 0 [7]).insertAt fastHasher64 320 (Fin.last 3) 9 5
  clients := rowNet.clients
  requests := []
  replies := [⟨0, .put 1283 9 5, ⟨true, 0⟩, none⟩]
  written := Function.update rowNet.written 9 (some 5)

/-- A client puts key 9 and reads it; both replies are still in flight. -/
theorem get_sound_nine : ∃ net a, Lib.Reaches (RdmaNet.step fastHasher64) (HandlesOk fastHasher64) rowNet net ∧
    a ∈ net.replies ∧ a.reply = ⟨true, 5⟩ ∧ a.expected = some 5 ∧ a.Sound := by
  have hone : ∀ {net : RdmaNet} {req : Request}, RequestOk fastHasher64 net.server req →
      HandlesOk fastHasher64 { net with requests := [(0, .request req)] } (.handle 0) := by
    intro net req hok client req' hget
    obtain ⟨-, hEq⟩ := Prod.mk.inj (Option.some.inj hget)
    exact Message.request.inj hEq ▸ hok
  have hput : RequestOk fastHasher64 rowNet.server (.put 1283 9 5) :=
    ⟨by decide, (by decide : (rowServer 423 0 [7]).packed.num < 2 ^ 32)⟩
  have hget : RequestOk fastHasher64 rowNetPut.server (.get 1283 9) := ⟨⟨rfl, rfl⟩, rfl⟩
  have h₁ : rowNet.step fastHasher64 (.send 0 (.put 9 5))
      = .ok { rowNet with requests := [(0, .request (.put 1283 9 5))] } := rfl
  have h₂ : RdmaNet.step fastHasher64 { rowNet with requests := [(0, .request (.put 1283 9 5))] } (.handle 0)
      = .ok rowNetPut := rfl
  have h₃ : rowNetPut.step fastHasher64 (.send 0 (.search 9))
      = .ok { rowNetPut with requests := [(0, .request (.get 1283 9))] } := rfl
  have h₄ : RdmaNet.step fastHasher64 { rowNetPut with requests := [(0, .request (.get 1283 9))] } (.handle 0)
      = .ok { rowNetPut with replies := rowNetPut.replies ++ [⟨0, .get 1283 9, ⟨true, 5⟩, some 5⟩] } := rfl
  have hrun₂ : Lib.Reaches (RdmaNet.step fastHasher64) (HandlesOk fastHasher64) rowNet rowNetPut :=
    (Lib.Reaches.snoc (a := .send 0 (.put 9 5)) .refl trivial h₁).snoc (hone hput) h₂
  have hrun := (hrun₂.snoc (a := .send 0 (.search 9)) trivial h₃).snoc (hone hget) h₄
  have hsetup := rowServer_setup 423 0 [7]
  have hmem := List.mem_append_right rowNetPut.replies
    (List.mem_singleton_self (⟨0, .get 1283 9, ⟨true, 5⟩, some 5⟩ : Answer))
  exact ⟨_, _, hrun, hmem, rfl, rfl, get_sound rowTable_seven hsetup hrun _ hmem⟩

/-- A get of key 9, which is not stored, is answered `status = true` with the data of packed entry `0`. -/
theorem get_of_absent_key : ∃ net a, Lib.Reaches (RdmaNet.step fastHasher64) Lib.anyStep rowNet net ∧
    net.replies = [a] ∧ a.expected = none ∧ a.reply = ⟨true, 0⟩ ∧ ¬ a.Sound := by
  have hrun : Lib.Reaches (RdmaNet.step fastHasher64) Lib.anyStep rowNet _ :=
    (Lib.Reaches.snoc (a := .send 0 (.search 9)) .refl trivial rfl).snoc (a := .handle 0) trivial rfl
  have hnot : ∀ c loc, ¬ Answer.Sound ⟨c, .get loc 9, ⟨true, 0⟩, none⟩ := fun _ _ h => absurd (h.2 rfl) Bool.noConfusion
  exact ⟨_, _, hrun, rfl, rfl, rfl, hnot 0 _⟩

end Outback
