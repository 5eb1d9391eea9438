import ChainIndex.Proofs.Cbor.Output
import ChainIndex.Proofs.Storage.Direct
import ChainIndex.Proofs.Storage.Key
import ChainIndex.Storage.Confirmed

/-!
# The stored outputs as a map

* `Utxos`: outputs by reference. `Utxos.StoredIn`: the outputs of a map, and nothing else, are stored.
* `Utxos.after`: what a change of a batch does to the map. A batch that succeeds takes stored outputs to
  stored outputs (`Utxos.StoredIn.execute`).
* `Utxos.StoredIn.txOutput` and `Utxos.StoredIn.outputsAt`: what the queries find.
-/

namespace ChainIndex

/-- Outputs by reference. -/
abbrev Utxos := OutputRef → Option TxOutput

/-- The output marked as used. -/
def TxOutput.used (o : TxOutput) : TxOutput := { o with isUsed := true }

/-- Elements that are all of one form are the images of a list. -/
theorem exists_eq_map {α β : Type} {f : α → β} {P : α → Prop} {l : List β}
    (h : ∀ b ∈ l, ∃ a, P a ∧ b = f a) : ∃ as : List α, l = as.map f ∧ ∀ a ∈ as, P a := by
  induction l with
  | nil => exact ⟨[], rfl, nofun⟩
  | cons b l ih =>
    obtain ⟨a, ha, rfl⟩ := h b List.mem_cons_self
    obtain ⟨as, rfl, has⟩ := ih fun b' hb' => h b' (List.mem_cons_of_mem _ hb')
    exact ⟨a :: as, rfl, by simpa using ⟨ha, has⟩⟩

/-- Elements that each have a partner have a list of partners. -/
theorem exists_forall₂ {α β : Type} {R : α → β → Prop} {l : List α} (h : ∀ a ∈ l, ∃ b, R a b) :
    ∃ bs, List.Forall₂ R l bs := by
  induction l with
  | nil => exact ⟨[], .nil⟩
  | cons a l ih =>
    obtain ⟨b, hb⟩ := h a List.mem_cons_self
    obtain ⟨bs, hbs⟩ := ih fun a' ha' => h a' (List.mem_cons_of_mem _ ha')
    exact ⟨b :: bs, .cons hb hbs⟩

/-- Partners with one image each have one list of images. -/
theorem map_eq_map_of_forall₂ {α β γ : Type} {f : α → γ} {g : β → γ} {as : List α} {bs : List β}
    (h : List.Forall₂ (fun a b => f a = g b) as bs) : as.map f = bs.map g := by
  rwa [← List.forall₂_eq_eq_eq, List.forall₂_map_left_iff, List.forall₂_map_right_iff]

namespace View

variable {ε α β σ : Type}

theorem bind_eq_ok {body : View ε α} {f : α → View ε β} {engine : Engine} {b : β} :
    (body >>= f) engine = .ok b ↔ ∃ a, body engine = .ok a ∧ f a engine = .ok b := by
  have hb : (body >>= f) engine = (body engine).bind fun a => f a engine := rfl
  rw [hb]
  cases body engine with
  | error e => simp [Except.bind]
  | ok a => simp [Except.bind]

theorem get_eq_ok {bucket : Bucket} {key : Bytes} {engine : Engine} {value? : Option Bytes}
    (h : (View.get bucket key : View StoreError (Option Bytes)) engine = .ok value?) :
    value? = engine.contents.lookup bucket key := by
  unfold View.get Engine.get at h
  cases hf : engine.faults.get false bucket key with
  | some e => rw [hf] at h; cases h
  | none => rw [hf] at h; cases h; rfl

/-- Whether a look-up fails has nothing to do with the contents. -/
theorem get_of_contents {bucket : Bucket} {key : Bytes} {engine : Engine} {value? : Option Bytes}
    (h : (View.get bucket key : View StoreError (Option Bytes)) engine = .ok value?)
    (contents : Contents) :
    (View.get bucket key : View StoreError (Option Bytes)) { engine with contents } =
      .ok (contents.lookup bucket key) := by
  unfold View.get Engine.get at h ⊢
  cases hf : engine.faults.get false bucket key with
  | some e => rw [hf] at h; cases h
  | none => rfl

/-- A scan visits the entries of the range. -/
theorem scan_eq [ScopeError ε] {engine : Engine} {bucket : Bucket} {range : KeyRange} {direction : Direction}
    (available : engine.faults.scan bucket range direction = none) (init : σ)
    (visitor : σ → Entry → Except ε (σ × Bool)) :
    View.scan bucket range direction init visitor engine =
      visit visitor init ((engine.contents.get bucket).entriesIn range direction) := by
  rw [View.scan, Engine.scan, available]
  rfl

/-- A visitor that collects what it picks, and always asks for more. -/
theorem visit_eq_filter {visitor : List β → Entry → Except ε (List β × Bool)} {R : Entry → β → Prop}
    {pick : β → Bool} {es : List Entry} {bs : List β}
    (h : ∀ e b, R e b → ∀ found, visitor found e = .ok (if pick b then b :: found else found, true))
    (read : List.Forall₂ R es bs) (found : List β) :
    visit visitor found es = .ok ((bs.filter pick).reverse ++ found) := by
  induction read generalizing found with
  | nil => rfl
  | @cons e b es bs head _ ih =>
    simp only [visit, h e b head found, Bind.bind, Except.bind, if_true, ih]
    cases hpick : pick b <;> simp [hpick]

end View

/-- A listing is made by a visit of all entries. -/
theorem Database.outputsAt_eq {db : Database} (usable : db.isPoisoned = false)
    (available : db.engine.faults.scan .utxos .all .ascending = none) (address : String)
    (onlyUnused : Bool) : db.outputsAt address onlyUnused =
      (View.visit (visitOutput address onlyUnused) [] (db.contents.get .utxos).entries).map
        fun reversed => ReferencedOutput.sort reversed.reverse := by
  have all : (db.engine.contents.get .utxos).entriesIn .all .ascending =
      (db.contents.get .utxos).entries := List.filter_eq_self.2 fun _ _ => rfl
  rw [outputsAt, view, usable, ← all, ← View.scan_eq available]
  rfl

/-- An output is that of an entry: the key encodes its reference, and the value is read as the output. -/
structure ReferencedOutput.IsOf (o : ReferencedOutput) (e : Entry) : Prop where
  ref : Key.toRef e.1 = .ok o.ref
  output : Cbor.Record.decode e.2 = .ok o.output

namespace Utxos

/-- One more output. -/
def save (m : Utxos) (o : ReferencedOutput) : Utxos :=
  fun r => if r = o.ref then some o.output else m r

/-- An output is spent: marked as used, or taken away. -/
def spend (soft : Bool) (m : Utxos) (ref : OutputRef) : Utxos :=
  fun r => if r = ref then (if soft then (m r).map TxOutput.used else none) else m r

/-- The outputs after a change of a batch. -/
def after (m : Utxos) : BatchOp → Utxos
  | .addOutputs outputs => outputs.foldl save m
  | .removeOutputs refs soft => refs.foldl (spend soft) m
  | .deleteAllOutputs => fun _ => none
  | .setLatestPoint _ | .addBlock _ | .addTxs _ => m

/-! ## Several outputs -/

/-- Outputs that agree on a reference leave theirs under it. -/
theorem foldl_save_eq_some {m : Utxos} {outputs : List ReferencedOutput} {r : OutputRef}
    {output : TxOutput} (agree : ∀ o ∈ outputs, o.ref = r → o.output = output)
    (h : m r = some output ∨ ∃ o ∈ outputs, o.ref = r) :
    outputs.foldl save m r = some output := by
  induction outputs generalizing m with
  | nil => exact h.resolve_right (by simp)
  | cons o rest ih =>
    refine ih (fun p hp => agree p (List.mem_cons_of_mem _ hp)) ?_
    by_cases hr : r = o.ref
    · left
      rw [save, if_pos hr, agree o List.mem_cons_self hr.symm]
    · rcases h with h | ⟨p, hp, hpr⟩
      · left
        rwa [save, if_neg hr]
      · rcases List.mem_cons.1 hp with rfl | hp
        · exact absurd hpr.symm hr
        · exact .inr ⟨p, hp, hpr⟩

theorem foldl_save_of_forall_ne {m : Utxos} {outputs : List ReferencedOutput} {r : OutputRef}
    (h : ∀ o ∈ outputs, o.ref ≠ r) : outputs.foldl save m r = m r := by
  induction outputs generalizing m with
  | nil => rfl
  | cons o rest ih =>
    rw [List.foldl_cons, ih fun p hp => h p (List.mem_cons_of_mem _ hp), save,
      if_neg (Ne.symm (h o List.mem_cons_self))]

/-- An output is spent once or more often: that makes no difference. -/
theorem foldl_spend (soft : Bool) (m : Utxos) (refs : List OutputRef) (r : OutputRef) :
    refs.foldl (spend soft) m r =
      if r ∈ refs then (if soft then (m r).map TxOutput.used else none) else m r := by
  induction refs generalizing m with
  | nil => simp
  | cons ref rest ih =>
    rw [List.foldl_cons, ih, spend]
    by_cases hr : r = ref
    · subst hr
      cases soft <;> cases m r <;> simp [TxOutput.used]
    · simp [hr]

/-- What is left after spending was there before, marked perhaps. -/
theorem exists_of_foldl_spend {soft : Bool} {m : Utxos} {refs : List OutputRef} {r : OutputRef}
    {output : TxOutput} (h : refs.foldl (spend soft) m r = some output) :
    ∃ saved, m r = some saved ∧ (output = saved ∨ output = saved.used) := by
  rw [foldl_spend] at h
  split at h
  · split at h
    · obtain ⟨saved, hs, rfl⟩ := Option.map_eq_some_iff.1 h
      exact ⟨saved, hs, .inr rfl⟩
    · cases h
  · exact ⟨output, h, .inl rfl⟩

/-! ## Stored outputs -/

/-- The outputs of the map are stored under the keys of their references, and nothing else is. -/
structure StoredIn (m : Utxos) (c : Contents) : Prop where
  lookup_eq : ∀ r : OutputRef, c.lookup .utxos r.key = (m r).map Cbor.Record.encode
  key_eq : ∀ key value, c.lookup .utxos key = some value → ∃ r : OutputRef, key = r.key
  storable : ∀ r o, m r = some o → o.Storable

/-- The outputs that a change adds have lengths below 2^64. -/
def StorableOp : BatchOp → Prop
  | .addOutputs outputs => ∀ o ∈ outputs, o.output.Storable
  | _ => True

namespace StoredIn

variable {m : Utxos} {c c' : Contents}

theorem empty (h : c.get .utxos = ∅) : StoredIn (fun _ => none) c where
  lookup_eq r := by rw [Contents.lookup, h]; rfl
  key_eq key value hl := by rw [Contents.lookup, h] at hl; cases hl
  storable r o hm := by cases hm

/-- Only the outputs matter. -/
theorem congr (h : StoredIn m c) (hc : c'.get .utxos = c.get .utxos) : StoredIn m c' := by
  have hl : ∀ key, c'.lookup .utxos key = c.lookup .utxos key := fun key => by
    rw [Contents.lookup, hc]; rfl
  exact ⟨fun r => by rw [hl, h.lookup_eq], fun key value hk => h.key_eq key value (by rwa [hl] at hk),
    h.storable⟩

/-- A change that is not about outputs. -/
theorem perform_of_none (h : StoredIn m c) {x : Write} (hx : ∀ k, x.value? .utxos k = none) :
    StoredIn m (c.perform x) := by
  have hl : ∀ key, (c.perform x).lookup .utxos key = c.lookup .utxos key := fun key => by
    rw [Contents.lookup_perform, hx]; rfl
  exact ⟨fun r => by rw [hl, h.lookup_eq], fun key value hk => h.key_eq key value (by rwa [hl] at hk),
    h.storable⟩

/-- A change of the output of one reference. -/
theorem perform_ref (h : StoredIn m c) {x : Write} {ref : OutputRef} {output? : Option TxOutput}
    (hx : ∀ k, x.value? .utxos k =
      if k = ref.key then some (output?.map Cbor.Record.encode) else none)
    (hs : ∀ o, output? = some o → o.Storable) :
    StoredIn (fun r => if r = ref then output? else m r) (c.perform x) := by
  refine ⟨fun r => ?_, fun key value hk => ?_, fun r o hm => ?_⟩
  · rw [Contents.lookup_perform, hx, h.lookup_eq]
    by_cases hr : r = ref
    · simp [hr]
    · have hne : r.key ≠ ref.key := fun hk => hr (OutputRef.key_inj hk)
      simp [hr, hne]
  · rw [Contents.lookup_perform, hx] at hk
    split at hk
    · rename_i heq
      exact ⟨ref, heq⟩
    · exact h.key_eq key value hk
  · split at hm
    · exact hs o hm
    · exact h.storable r o hm

theorem save (h : StoredIn m c) {o : ReferencedOutput} (hs : o.output.Storable) :
    StoredIn (m.save o) (c.perform (.put .utxos o.ref.key (Cbor.Record.encode o.output))) := by
  refine h.perform_ref (fun k => ?_) (fun p hp => ?_)
  · simp [Write.value?]
  · cases hp; exact hs

theorem delete (h : StoredIn m c) (ref : OutputRef) :
    StoredIn (m.spend false ref) (c.perform (.delete .utxos ref.key)) :=
  h.perform_ref (fun k => by simp [Write.value?]) nofun

theorem markUsed (h : StoredIn m c) {ref : OutputRef}
    (hd : (BatchOp.markUsedDirect ref : Direct StoreError Unit) c = .ok ((), c')) :
    StoredIn (m.spend true ref) c' := by
  obtain ⟨stored, c₁, hget, hd⟩ := Direct.bind_eq_ok.1 hd
  cases hget
  rw [h.lookup_eq] at hd
  cases hm : m ref with
  | none =>
    rw [hm] at hd
    cases hd
    have heq : m.spend true ref = m := by
      funext r
      unfold spend
      split
      · rename_i hr; simp [hr, hm]
      · rfl
    rwa [heq]
  | some output =>
    rw [hm] at hd
    obtain ⟨read, c₁, hread, hd⟩ := Direct.bind_eq_ok.1 hd
    have hs := h.storable ref output hm
    have hrec : (Direct.record (Cbor.Record.encode output) : Direct StoreError TxOutput) c =
        .ok (output, c) := by
      rw [Direct.record, readRecord, TxOutput.decode_encode hs]
      rfl
    rw [hrec] at hread
    cases hread
    cases hd
    have heq : m.spend true ref = fun r => if r = ref then some output.used else m r := by
      funext r
      unfold spend
      split
      · rename_i hr; simp [hr, hm]
      · rfl
    rw [heq]
    exact h.perform_ref (fun k => by simp [Write.value?, TxOutput.used])
      fun p hp => by cases hp; exact hs.used

/-- A change of a batch. -/
theorem direct (h : StoredIn m c) {op : BatchOp} (hs : StorableOp op)
    (hd : (op.direct : Direct StoreError Unit) c = .ok ((), c')) : StoredIn (m.after op) c' := by
  cases op with
  | setLatestPoint | addBlock =>
    cases hd
    exact h.perform_of_none fun k => by simp [Write.value?]
  | addTxs txs =>
    refine Direct.forM_ok (fun (_ : Unit) c => StoredIn m c) (fun u _ => u) ?_ () h hd
    rintro tx - u c₁ c₂ h₁ hd₁
    cases hd₁
    exact h₁.perform_of_none fun k => by simp [Write.value?]
  | addOutputs outputs =>
    refine Direct.forM_ok StoredIn Utxos.save ?_ m h hd
    rintro o ho m₁ c₁ c₂ h₁ hd₁
    cases hd₁
    exact h₁.save (hs o ho)
  | removeOutputs refs soft =>
    refine Direct.forM_ok StoredIn (spend soft) ?_ m h hd
    rintro ref - m₁ c₁ c₂ h₁ hd₁
    cases soft with
    | true => exact h₁.markUsed hd₁
    | false => cases hd₁; exact h₁.delete ref
  | deleteAllOutputs =>
    cases hd
    refine .empty ?_
    exact (Buckets.get_set c .utxos .utxos ∅).trans (if_pos rfl)

/-- A batch that succeeds. -/
theorem execute {db db' : Database} {w w' : BatchWriter} (h : StoredIn m db.contents)
    (hs : ∀ op ∈ w.ops, StorableOp op) (hx : w.execute db = (.ok (), w', db')) :
    StoredIn (w.ops.foldl after m) db'.contents :=
  Direct.forM_ok StoredIn after (fun op hop _ _ _ h₁ hd => h₁.direct (hs op hop) hd) m h
    (BatchWriter.execute_ok hx).1

/-! ## Queries -/

/-- The output that is found under a reference. -/
theorem txOutput {db : Database} (h : StoredIn m db.contents) {r : OutputRef} {output : TxOutput}
    (hq : db.txOutput r = .ok output) : output = (m r).getD .unknown := by
  unfold Database.txOutput Database.view at hq
  split at hq
  · cases hq
  · obtain ⟨stored, hget, hq⟩ := View.bind_eq_ok.1 hq
    have hl : db.engine.contents.lookup .utxos r.key = (m r).map Cbor.Record.encode := h.lookup_eq r
    rw [View.get_eq_ok hget, hl] at hq
    cases hm : m r with
    | none => rw [hm] at hq; cases hq; rfl
    | some o =>
      have hne := TxOutput.encode_ne_nil o
      have hrec : (View.record (Cbor.Record.encode o) : View StoreError TxOutput) db.engine =
          .ok o := by
        rw [View.record, readRecord, TxOutput.decode_encode (h.storable r o hm)]
      cases hb : Cbor.Record.encode o with
      | nil => exact absurd hb hne
      | cons byte bytes =>
        rw [hm, Option.map_some, hb] at hq
        rw [hb] at hrec
        change View.record (byte :: bytes) db.engine = _ at hq
        rw [hrec] at hq
        cases hq
        rfl

/-- Every entry is that of an output of the map. -/
theorem exists_entries (h : StoredIn m c) : ∃ outputs : List ReferencedOutput,
    (c.get .utxos).entries = outputs.map (fun o => (o.ref.key, Cbor.Record.encode o.output)) ∧
      ∀ o, o ∈ outputs ↔ m o.ref = some o.output := by
  have hmem : ∀ e, e ∈ (c.get .utxos).entries ↔ ∃ o : ReferencedOutput, m o.ref = some o.output ∧
      e = (o.ref.key, Cbor.Record.encode o.output) := by
    rintro ⟨key, value⟩
    rw [← KeyMap.get?_eq_some_iff]
    constructor
    · intro hl
      obtain ⟨r, rfl⟩ := h.key_eq key value hl
      have hr := h.lookup_eq r
      rw [Contents.lookup, hl] at hr
      obtain ⟨o, hm, he⟩ := Option.map_eq_some_iff.1 hr.symm
      exact ⟨⟨r, o⟩, hm, by rw [he]⟩
    · rintro ⟨o, hm, he⟩
      cases he
      have hr := h.lookup_eq o.ref
      rwa [hm] at hr
  obtain ⟨outputs, heq, hall⟩ := exists_eq_map fun e he => (hmem e).1 he
  refine ⟨outputs, heq, fun o => ⟨hall o, fun hm => ?_⟩⟩
  have ho := (hmem _).2 ⟨o, hm, rfl⟩
  rw [heq] at ho
  obtain ⟨p, hp, hkey⟩ := List.mem_map.1 ho
  have href : p.ref = o.ref := OutputRef.key_inj (Prod.mk.inj hkey).1
  have hout : p.output = o.output := by
    have := hall p hp
    rw [href, hm] at this
    exact (Option.some.inj this).symm
  have hpo : p = o := by
    cases p; cases o
    simp_all
  rwa [← hpo]

/-- Whether a listing has an output. -/
def picks (address : String) (onlyUnused : Bool) (o : ReferencedOutput) : Bool :=
  !(decide (o.output.address ≠ address) || (onlyUnused && o.output.isUsed))

theorem picks_eq_true {address : String} {onlyUnused : Bool} {o : ReferencedOutput} :
    picks address onlyUnused o = true ↔
      o.output.address = address ∧ (onlyUnused = true → o.output.isUsed = false) := by
  rw [picks]
  cases onlyUnused <;> simp

theorem visitOutput_eq (address : String) (onlyUnused : Bool) {e : Entry} {o : ReferencedOutput}
    (h : o.IsOf e) (found : List ReferencedOutput) :
    Database.visitOutput address onlyUnused found e =
      .ok (if picks address onlyUnused o then o :: found else found, true) := by
  simp only [Database.visitOutput, readRecord, h.output, Bind.bind, Except.bind, h.ref]
  by_cases leftOut : (decide (o.output.address ≠ address) || (onlyUnused && o.output.isUsed)) = true
  · have hpick : picks address onlyUnused o = false := by rw [picks, leftOut]; rfl
    rw [if_pos leftOut, hpick]
    rfl
  · have hpick : picks address onlyUnused o = true := by
      rw [picks, Bool.eq_false_iff.2 leftOut]; rfl
    rw [if_neg leftOut, hpick]
    rfl

/-- The listing that a visit of some entries makes. -/
theorem visit_visitOutput (address : String) (onlyUnused : Bool) {es : List Entry}
    {outputs : List ReferencedOutput} (read : List.Forall₂ (fun e o => o.IsOf e) es outputs) :
    View.visit (Database.visitOutput address onlyUnused) [] es =
      .ok (outputs.filter (picks address onlyUnused)).reverse := by
  have visited := View.visit_eq_filter (fun _ _ h => visitOutput_eq address onlyUnused h) read []
  rwa [List.append_nil] at visited

/-- Listings are made of the outputs of the map, each once. -/
theorem listing {db : Database} (h : StoredIn m db.contents) (hp : db.isPoisoned = false)
    (hscan : db.engine.faults.scan .utxos .all .ascending = none) :
    ∃ outputs : List ReferencedOutput, outputs.Pairwise (fun o p => o.ref ≠ p.ref) ∧
      (∀ o, o ∈ outputs ↔ m o.ref = some o.output) ∧
      ∀ address onlyUnused, db.outputsAt address onlyUnused =
        .ok (ReferencedOutput.sort (outputs.filter (picks address onlyUnused))) := by
  obtain ⟨outputs, hentries, hmem⟩ := h.exists_entries
  refine ⟨outputs, ?_, hmem, fun address onlyUnused => ?_⟩
  · have hsorted := (db.contents.get .utxos).sorted
    rw [hentries, List.pairwise_map] at hsorted
    refine hsorted.imp fun {o p} hlt href => ?_
    rw [href] at hlt
    exact List.lt_irrefl _ hlt
  · have read : List.Forall₂ (fun e o => o.IsOf e) (db.contents.get .utxos).entries outputs := by
      rw [hentries, List.forall₂_map_left_iff, List.forall₂_same]
      exact fun o ho => ⟨Key.toRef_key o.ref, TxOutput.decode_encode (h.storable _ _ ((hmem o).1 ho))⟩
    rw [Database.outputsAt_eq hp hscan, visit_visitOutput address onlyUnused read, Except.map,
      List.reverse_reverse]

/-- The outputs that are listed for an address: those of the map that pay to it, each once. -/
theorem outputsAt {db : Database} (h : StoredIn m db.contents) (hp : db.isPoisoned = false)
    (hscan : db.engine.faults.scan .utxos .all .ascending = none) (address : String)
    (onlyUnused : Bool) : ∃ found, db.outputsAt address onlyUnused = .ok found ∧
      found.Pairwise (fun o p => o.ref ≠ p.ref) ∧
      ∀ o, o ∈ found ↔ m o.ref = some o.output ∧ o.output.address = address ∧
        (onlyUnused = true → o.output.isUsed = false) := by
  obtain ⟨outputs, hpairwise, hmem, hlisting⟩ := h.listing hp hscan
  refine ⟨_, hlisting address onlyUnused, ?_, fun o => ?_⟩
  · have hperm := List.mergeSort_perm (outputs.filter (picks address onlyUnused)) ReferencedOutput.le
    exact (hpairwise.filter _).perm hperm.symm fun h => h.symm
  · rw [ReferencedOutput.sort, List.mem_mergeSort, List.mem_filter, hmem, picks_eq_true]

/-- Where no output is used, it does not matter whether used ones are asked for. -/
theorem outputsAt_of_unused {db : Database} (h : StoredIn m db.contents)
    (hp : db.isPoisoned = false) (hscan : db.engine.faults.scan .utxos .all .ascending = none)
    (unused : ∀ r o, m r = some o → o.isUsed = false) (address : String) :
    db.outputsAt address false = db.outputsAt address true := by
  obtain ⟨outputs, -, hmem, hlisting⟩ := h.listing hp hscan
  have hpicks : ∀ o ∈ outputs, picks address false o = picks address true o := fun o ho => by
    simp [picks, unused o.ref o.output ((hmem o).1 ho)]
  rw [hlisting, hlisting, List.filter_congr hpicks]

end StoredIn

end Utxos

end ChainIndex
