import Atree.BaseStorage
import Mathlib.Data.Fintype.Basic

/-! The digests of map keys: `basicDigesterBuilder`, `basicDigester` and their `sync.Pool`.
Level 0 is `circlehash.Hash64` and levels 1 to 3 are words of a memoised
`blake3.Sum256`; both hash functions are parameters. -/

namespace Atree

/-- `circlehash.Hash64` and `blake3.Sum256`. -/
structure DigestHashes where
  circleHash64 : Bytes → Nat → Nat
  blake3Sum256 : Bytes → Bytes

/-- The errors of the digesters, with their texts. -/
inductive DigesterError (ε : Type) where
  | hashSeedUninitialized
  | external (err : ε) (message : String)
  | hashLevel (message : String)
  deriving DecidableEq

def emptyBlake3Hash : Fin 4 → Nat := fun _ => 0

/-- The words `Digest` stores from `blake3.Sum256`: `binary.BigEndian.Uint64(sum[8i:])`. -/
def blake3Words (sum : Bytes) (i : Fin 4) : Nat := bigEndianValue ((sum.drop (8 * i)).take 8)

/-- `basicDigester`, without the `scratch` buffer that only the hash-input provider
writes into. -/
structure BasicDigester where
  circleHash64 : Nat
  blake3Hash : Fin 4 → Nat
  msg : Bytes

namespace BasicDigester

variable {ε : Type} (hashes : DigestHashes)

/-- What the pool's `New` makes. -/
def new : BasicDigester := ⟨0, emptyBlake3Hash, []⟩

def levels : Nat := 4

/-- The error `Digest` returns for a level outside `[0, Levels())`. -/
def digestLevelError (level : Nat) : DigesterError ε :=
  .hashLevel s!"cannot get digest at level {level}: level must be [0, {levels})"

/-- The error `DigestPrefix` returns for a level outside `[0, Levels()]`. -/
def digestPrefixLevelError (level : Nat) : DigesterError ε :=
  .hashLevel s!"cannot get digest < level {level}: level must be [0, {levels}]"

def reset (bd : BasicDigester) : BasicDigester :=
  { bd with circleHash64 := 0, blake3Hash := emptyBlake3Hash, msg := [] }

/-- Word `i` of `blake3.Sum256(msg)`, computed and memoised unless memoised already. -/
def blake3Digest (bd : BasicDigester) (i : Fin 4) : Nat × BasicDigester :=
  let bd := if bd.blake3Hash = emptyBlake3Hash then
    { bd with blake3Hash := blake3Words (hashes.blake3Sum256 bd.msg) } else bd
  (bd.blake3Hash i, bd)

def digest (bd : BasicDigester) (level : Nat) : Except (DigesterError ε) Nat × BasicDigester :=
  if level ≥ levels then
    (.error (digestLevelError level), bd)
  else
    match level with
    | 0 => (.ok bd.circleHash64, bd)
    | word + 1 =>
      if inRange : word < 3 then
        ((.ok (blake3Digest hashes bd ⟨word, by omega⟩).1), (blake3Digest hashes bd ⟨word, by omega⟩).2)
      else (.ok 0, bd)

/-- The loop of `DigestPrefix` over the levels below the requested one. -/
def digestPrefixLoop : List Nat → BasicDigester → List Nat →
    Except (DigesterError ε) (List Nat) × BasicDigester
  | [], bd, digests => (.ok digests, bd)
  | level :: rest, bd, digests =>
    match digest hashes bd level with
    | (.error err, bd) => (.error err, bd)
    | (.ok d, bd) => digestPrefixLoop rest bd (digests ++ [d])

def digestPrefix (bd : BasicDigester) (level : Nat) : Except (DigesterError ε) (List Nat) × BasicDigester :=
  if level > levels then
    (.error (digestPrefixLevelError level), bd)
  else digestPrefixLoop hashes (List.range level) bd []

end BasicDigester

/-- The digests of a message by the `Digester` contract, recomputed at every call:
`circlehash.Hash64` with the seed at level 0, and at levels 1 to 3 the level-th
big-endian 64-bit word of `blake3.Sum256`. -/
def recomputedDigest {ε : Type} (hashes : DigestHashes) (seed : Nat) (msg : Bytes) (level : Nat) :
    Except (DigesterError ε) Nat :=
  if level = 0 then .ok (hashes.circleHash64 msg seed)
  else if level < 4 then .ok (bigEndianValue (((hashes.blake3Sum256 msg).drop (8 * (level - 1))).take 8))
  else .error (BasicDigester.digestLevelError level)

/-- The prefix of digests below `level`, each recomputed. -/
def recomputedDigestPrefix {ε : Type} (hashes : DigestHashes) (seed : Nat) (msg : Bytes) (level : Nat) :
    Except (DigesterError ε) (List Nat) :=
  if level > 4 then .error (BasicDigester.digestPrefixLevelError level)
  else (List.range level).mapM (recomputedDigest hashes seed msg)

namespace BasicDigester

variable {ε : Type} {hashes : DigestHashes}

/-- A digester answers for `msg` under `seed`: its level-0 digest was computed from
them, and its memo is empty or holds the words of `blake3.Sum256(msg)`. -/
structure Answers (hashes : DigestHashes) (seed : Nat) (msg : Bytes) (bd : BasicDigester) : Prop where
  msg_eq : bd.msg = msg
  circle : bd.circleHash64 = hashes.circleHash64 msg seed
  memo : bd.blake3Hash = emptyBlake3Hash ∨ bd.blake3Hash = blake3Words (hashes.blake3Sum256 msg)

private theorem blake3Digest_answers {seed : Nat} {msg : Bytes} {bd : BasicDigester} (answers : Answers hashes seed msg bd)
    (i : Fin 4) :
    (blake3Digest hashes bd i).1 = blake3Words (hashes.blake3Sum256 msg) i ∧
      Answers hashes seed msg (blake3Digest hashes bd i).2 := by
  obtain ⟨rfl, circle, memo⟩ := answers
  show (blake3Digest hashes bd i).2.blake3Hash i = _ ∧ _
  by_cases empty : bd.blake3Hash = emptyBlake3Hash
  · have after : (blake3Digest hashes bd i).2 =
        { bd with blake3Hash := blake3Words (hashes.blake3Sum256 bd.msg) } := by
      simp only [blake3Digest, if_pos empty]
    rw [after]
    exact ⟨rfl, rfl, circle, .inr rfl⟩
  · have after : (blake3Digest hashes bd i).2 = bd := by simp only [blake3Digest, if_neg empty]
    rw [after, memo.resolve_left empty]
    exact ⟨rfl, rfl, circle, memo⟩

/-- A digester that answers for `msg` gives the recomputed digest at every level. -/
theorem digest_answers {seed : Nat} {msg : Bytes} {bd : BasicDigester} (answers : Answers hashes seed msg bd)
    (level : Nat) :
    (digest hashes bd level : Except (DigesterError ε) Nat × BasicDigester).1 =
        recomputedDigest hashes seed msg level ∧
      Answers hashes seed msg (digest hashes bd level : Except (DigesterError ε) Nat × BasicDigester).2 := by
  unfold digest recomputedDigest
  by_cases beyond : level ≥ levels
  · have : ¬ level < 4 := by simpa [levels] using beyond
    have nonzero : level ≠ 0 := by simp [levels] at beyond; omega
    rw [if_pos beyond, if_neg nonzero, if_neg this]
    exact ⟨rfl, answers⟩
  · rw [if_neg beyond]
    match level, beyond with
    | 0, _ => exact ⟨by rw [answers.circle]; rfl, answers⟩
    | word + 1, beyond =>
      have inRange : word < 3 := by simp [levels] at beyond; omega
      have blake3 := blake3Digest_answers answers ⟨word, by omega⟩
      simp only [dif_pos inRange, if_neg (Nat.succ_ne_zero word), if_pos (by omega : word + 1 < 4),
        Nat.add_sub_cancel, blake3.1]
      exact ⟨rfl, blake3.2⟩

private theorem digestPrefixLoop_answers {seed : Nat} {msg : Bytes} {bd : BasicDigester}
    (answers : Answers hashes seed msg bd) (levels digests : List Nat) :
    (digestPrefixLoop hashes levels bd digests : Except (DigesterError ε) (List Nat) × BasicDigester).1 =
        (levels.mapM (recomputedDigest hashes seed msg)).map (digests ++ ·) ∧
      Answers hashes seed msg
        (digestPrefixLoop hashes levels bd digests : Except (DigesterError ε) (List Nat) × BasicDigester).2 := by
  induction levels generalizing bd digests with
  | nil =>
    refine ⟨?_, answers⟩
    simp only [digestPrefixLoop, List.mapM_nil]
    simp [Except.map, pure, Except.pure]
  | cons level rest ih =>
    have digested : (digest hashes bd level : Except (DigesterError ε) Nat × BasicDigester).1 =
        recomputedDigest hashes seed msg level ∧ Answers hashes seed msg (digest hashes bd level).2 :=
      digest_answers answers level
    rcases pair : (digest hashes bd level : Except (DigesterError ε) Nat × BasicDigester) with ⟨result, bd'⟩
    rw [pair] at digested
    obtain ⟨rfl, answers'⟩ := digested
    simp only [digestPrefixLoop, pair, List.mapM_cons]
    cases (recomputedDigest hashes seed msg level : Except (DigesterError ε) Nat) with
    | error err => exact ⟨rfl, answers'⟩
    | ok d =>
      obtain ⟨looped, answers''⟩ := ih answers' (digests ++ [d])
      refine ⟨?_, answers''⟩
      rw [looped]
      cases rest.mapM (recomputedDigest hashes seed msg) <;> simp [Except.map, bind, Except.bind, pure, Except.pure]

/-- A digester that answers for `msg` gives the recomputed prefix of digests. -/
theorem digestPrefix_answers {seed : Nat} {msg : Bytes} {bd : BasicDigester} (answers : Answers hashes seed msg bd)
    (level : Nat) :
    (digestPrefix hashes bd level : Except (DigesterError ε) (List Nat) × BasicDigester).1 =
        recomputedDigestPrefix hashes seed msg level ∧
      Answers hashes seed msg (digestPrefix hashes bd level : Except (DigesterError ε) (List Nat) × BasicDigester).2 := by
  unfold digestPrefix recomputedDigestPrefix
  by_cases beyond : level > levels
  · rw [if_pos beyond, if_pos (by simpa [levels] using beyond)]
    exact ⟨rfl, answers⟩
  · rw [if_neg beyond, if_neg (by simpa [levels] using beyond)]
    obtain ⟨looped, answers'⟩ := digestPrefixLoop_answers answers (List.range level) []
    refine ⟨?_, answers'⟩
    rw [looped]
    cases (List.range level).mapM (recomputedDigest hashes seed msg) <;> rfl

/-- The words levels 1 to 3 read: the memo, or those of `blake3.Sum256(msg)` while
the memo is all zero. -/
def blake3View (hashes : DigestHashes) (bd : BasicDigester) : Fin 4 → Nat :=
  if bd.blake3Hash = emptyBlake3Hash then blake3Words (hashes.blake3Sum256 bd.msg) else bd.blake3Hash

/-- Two digesters that `Digest` cannot tell apart: the same level-0 digest and the
same words at levels 1 to 3, memoised or not. -/
structure Alike (hashes : DigestHashes) (bd bd' : BasicDigester) : Prop where
  circle : bd.circleHash64 = bd'.circleHash64
  view : blake3View hashes bd = blake3View hashes bd'

private theorem blake3Digest_fst (bd : BasicDigester) (i : Fin 4) : (blake3Digest hashes bd i).1 = blake3View hashes bd i := by
  unfold blake3Digest blake3View
  split <;> rfl

/-- Filling the memo changes neither digest a later call reads. -/
theorem blake3Digest_alike (bd : BasicDigester) (i : Fin 4) : Alike hashes (blake3Digest hashes bd i).2 bd := by
  by_cases empty : bd.blake3Hash = emptyBlake3Hash
  · simp only [blake3Digest, if_pos empty]
    refine ⟨rfl, ?_⟩
    simp only [blake3View, if_pos empty]
    split <;> rfl
  · simp only [blake3Digest, if_neg empty]
    exact ⟨rfl, rfl⟩

/-- What `Digest` returns depends on what `Alike` compares only, and the digester it
leaves is alike the one it was called on. -/
theorem digest_of_alike {bd bd' : BasicDigester} (alike : Alike hashes bd bd') (level : Nat) :
    (digest hashes bd level : Except (DigesterError ε) Nat × BasicDigester).1 = (digest hashes bd' level).1 ∧
      Alike hashes (digest hashes bd level : Except (DigesterError ε) Nat × BasicDigester).2 bd' := by
  unfold digest
  split
  · exact ⟨rfl, alike⟩
  · match level with
    | 0 => exact ⟨by rw [alike.circle], alike⟩
    | word + 1 =>
      simp only
      split
      · rename_i inRange
        have filled : Alike hashes _ bd := blake3Digest_alike bd ⟨word, by omega⟩
        rw [blake3Digest_fst, blake3Digest_fst, alike.view]
        exact ⟨rfl, filled.circle.trans alike.circle, filled.view.trans alike.view⟩
      · exact ⟨rfl, alike⟩

private theorem digestPrefixLoop_of_alike {bd bd' : BasicDigester} (alike : Alike hashes bd bd') (levels digests : List Nat) :
    (digestPrefixLoop hashes levels bd digests : Except (DigesterError ε) (List Nat) × BasicDigester).1 =
      (levels.mapM fun i => (digest hashes bd' i : Except (DigesterError ε) Nat × BasicDigester).1).map (digests ++ ·) := by
  induction levels generalizing bd digests with
  | nil =>
    simp only [digestPrefixLoop, List.mapM_nil]
    simp [Except.map, pure, Except.pure]
  | cons level rest ih =>
    obtain ⟨same, alike'⟩ : (digest hashes bd level : Except (DigesterError ε) Nat × BasicDigester).1 = _ ∧ _ :=
      digest_of_alike alike level
    rcases pair : (digest hashes bd level : Except (DigesterError ε) Nat × BasicDigester) with ⟨result, bd''⟩
    rw [pair] at same alike'
    simp only at same alike'
    simp only [digestPrefixLoop, pair, List.mapM_cons, ← same]
    cases result with
    | error err => rfl
    | ok d =>
      rw [ih alike']
      cases rest.mapM fun i => (digest hashes bd' i : Except (DigesterError ε) Nat × BasicDigester).1 <;>
        simp [Except.map, bind, Except.bind, pure, Except.pure]

/-- `DigestPrefix` is the loop of `Digest` calls it is written as, whatever the
digester holds: up to `Levels()` it returns the digests that `Digest` at each level
below would return on the digester as it was, the memo it fills on the way changing
none of them. Beyond `Levels()` it reports its own level error, not that of `Digest`. -/
theorem digestPrefix_eq_mapM_digest (bd : BasicDigester) {level : Nat} (within : level ≤ levels) :
    (digestPrefix hashes bd level : Except (DigesterError ε) (List Nat) × BasicDigester).1 =
      (List.range level).mapM fun i => (digest hashes bd i : Except (DigesterError ε) Nat × BasicDigester).1 := by
  unfold digestPrefix
  rw [if_neg (Nat.not_lt.mpr within), digestPrefixLoop_of_alike ⟨rfl, rfl⟩]
  cases (List.range level).mapM fun i => (digest hashes bd i : Except (DigesterError ε) Nat × BasicDigester).1 <;> rfl

/-- Hashes that ignore the message: the seed at level 0, a sum of ones for
`blake3.Sum256`. -/
def constantHashes : DigestHashes := ⟨fun _ seed => seed, fun _ => List.replicate 32 1⟩

/-- A digester whose memo was never reset: it holds words that are not those of its
message. -/
def staleDigester : BasicDigester := ⟨7, fun i => i.val, [2]⟩

theorem digestPrefix_eq_mapM_digest_of_staleDigester :
    4 ≤ levels ∧ (digestPrefix constantHashes staleDigester 4 : Except (DigesterError Unit) (List Nat) × _).1 =
      .ok [7, 0, 1, 2] :=
  ⟨le_refl 4, (digestPrefix_eq_mapM_digest staleDigester (le_refl 4)).trans rfl⟩

end BasicDigester

/-- `basicDigesterPool`: the digesters it holds. -/
abbrev DigesterPool := List BasicDigester

/-- `getBasicDigester`: `sync.Pool.Get` may hand out any pooled digester, here the one
at `choice`, or a new one, here when `choice` is past the end. -/
def getBasicDigester (pool : DigesterPool) (choice : Nat) : BasicDigester × DigesterPool :=
  match pool[choice]? with
  | some bd => (bd, pool.eraseIdx choice)
  | none => (BasicDigester.new, pool)

def putDigester (pool : DigesterPool) (bd : BasicDigester) : DigesterPool := bd.reset :: pool

structure BasicDigesterBuilder where
  k0 : Nat
  k1 : Nat

/-- `basicDigesterBuilder.Digest` of `value`, taking the digester the pool hands out
at `choice` and returning it through `putDigester` when the hash-input provider fails. -/
def BasicDigesterBuilder.digest {V ε : Type} (hashes : DigestHashes) (hip : V → Except ε Bytes)
    (bdb : BasicDigesterBuilder) (value : V) (pool : DigesterPool) (choice : Nat) :
    Except (DigesterError ε) BasicDigester × DigesterPool :=
  if bdb.k0 = 0 then (.error .hashSeedUninitialized, pool)
  else
    match hip value with
    | .error err =>
      (.error (.external err "failed to generate hash input"),
        putDigester (getBasicDigester pool choice).2 (getBasicDigester pool choice).1)
    | .ok msg =>
      (.ok { (getBasicDigester pool choice).1 with msg, circleHash64 := hashes.circleHash64 msg bdb.k0 },
        (getBasicDigester pool choice).2)

/-- A digester a caller holds, with the seed it was built under, which the digester
itself does not keep. -/
structure HeldDigester where
  digester : BasicDigester
  seed : Nat

/-- The digesters of a program: those in the pool and those its callers hold. -/
structure Digesters where
  pool : DigesterPool
  held : List HeldDigester

/-- The calls on the digesters: build one with a builder, call `Digest` or
`DigestPrefix` on the `j`-th held one, hand it back with `putDigester`, or let the
garbage collector drop a pooled one. -/
inductive DigesterCall (V : Type) where
  | build (bdb : BasicDigesterBuilder) (value : V) (choice : Nat)
  | digest (j level : Nat)
  | digestPrefix (j level : Nat)
  | put (j : Nat)
  | collect (i : Nat)

inductive DigesterResult (ε : Type) where
  | built (result : Except (DigesterError ε) Unit)
  | digest (result : Except (DigesterError ε) Nat)
  | digestPrefix (result : Except (DigesterError ε) (List Nat))

namespace Digesters

variable {V ε : Type} (hashes : DigestHashes) (hip : V → Except ε Bytes)

def step (sys : Digesters) : DigesterCall V → Digesters × Option (DigesterResult ε)
  | .build bdb value choice =>
    match bdb.digest hashes hip value sys.pool choice with
    | (.ok bd, pool) => (⟨pool, sys.held ++ [⟨bd, bdb.k0⟩]⟩, some (.built (.ok ())))
    | (.error err, pool) => ({ sys with pool }, some (.built (.error err)))
  | .digest j level =>
    match sys.held[j]? with
    | none => (sys, none)
    | some held =>
      let digested := (held.digester.digest hashes level : Except (DigesterError ε) Nat × BasicDigester)
      ({ sys with held := sys.held.set j { held with digester := digested.2 } }, some (.digest digested.1))
  | .digestPrefix j level =>
    match sys.held[j]? with
    | none => (sys, none)
    | some held =>
      let digested := (held.digester.digestPrefix hashes level : Except (DigesterError ε) (List Nat) × BasicDigester)
      ({ sys with held := sys.held.set j { held with digester := digested.2 } }, some (.digestPrefix digested.1))
  | .put j =>
    match sys.held[j]? with
    | none => (sys, none)
    | some held => (⟨putDigester sys.pool held.digester, sys.held.eraseIdx j⟩, none)
  | .collect i => ({ sys with pool := sys.pool.eraseIdx i }, none)

/-- A run of calls: the digesters it leaves and the results the calls returned. -/
def run : Digesters → List (DigesterCall V) → Digesters × List (DigesterResult ε)
  | sys, [] => (sys, [])
  | sys, call :: calls =>
    ((run (step hashes hip sys call).1 calls).1,
      (step hashes hip sys call).2.toList ++ (run (step hashes hip sys call).1 calls).2)

/-- The same calls answered without memo or pool: a held digester is its seed and
message, and every digest is recomputed from them. -/
def recomputedStep (held : List (Nat × Bytes)) : DigesterCall V → List (Nat × Bytes) × Option (DigesterResult ε)
  | .build bdb value _ =>
    if bdb.k0 = 0 then (held, some (.built (.error .hashSeedUninitialized)))
    else
      match hip value with
      | .error err => (held, some (.built (.error (.external err "failed to generate hash input"))))
      | .ok msg => (held ++ [(bdb.k0, msg)], some (.built (.ok ())))
  | .digest j level =>
    match held[j]? with
    | none => (held, none)
    | some (seed, msg) => (held, some (.digest (recomputedDigest hashes seed msg level)))
  | .digestPrefix j level =>
    match held[j]? with
    | none => (held, none)
    | some (seed, msg) => (held, some (.digestPrefix (recomputedDigestPrefix hashes seed msg level)))
  | .put j => (held.eraseIdx j, none)
  | .collect _ => (held, none)

def recomputedRun : List (Nat × Bytes) → List (DigesterCall V) → List (Nat × Bytes) × List (DigesterResult ε)
  | held, [] => (held, [])
  | held, call :: calls =>
    ((recomputedRun (recomputedStep hashes hip held call).1 calls).1,
      (recomputedStep hashes hip held call).2.toList ++ (recomputedRun (recomputedStep hashes hip held call).1 calls).2)

end Digesters

private theorem getBasicDigester_unmemoised {pool : DigesterPool} (pooled : ∀ bd ∈ pool, bd.blake3Hash = emptyBlake3Hash)
    (choice : Nat) :
    (getBasicDigester pool choice).1.blake3Hash = emptyBlake3Hash ∧
      ∀ bd ∈ (getBasicDigester pool choice).2, bd.blake3Hash = emptyBlake3Hash := by
  unfold getBasicDigester
  split
  · rename_i bd found
    exact ⟨pooled bd (List.getElem?_mem found), fun other member => pooled other (List.mem_of_mem_eraseIdx member)⟩
  · exact ⟨rfl, pooled⟩

private theorem putDigester_unmemoised {pool : DigesterPool} (pooled : ∀ bd ∈ pool, bd.blake3Hash = emptyBlake3Hash)
    (bd : BasicDigester) : ∀ bd' ∈ putDigester pool bd, bd'.blake3Hash = emptyBlake3Hash := by
  intro bd' member
  rcases List.mem_cons.mp member with rfl | pooledBefore
  · rfl
  · exact pooled bd' pooledBefore

private theorem set_eq_of_getElem? {α : Type} {l : List α} {j : Nat} {a : α} (found : l[j]? = some a) :
    l.set j a = l := by
  apply List.ext_getElem?
  intro n
  rw [List.getElem?_set]
  by_cases same : j = n
  · subst same; simp [found, (List.getElem?_eq_some.mp found).1]
  · simp [same]

/-- What the recomputing model holds for a held digester: its seed and message. -/
def HeldDigester.view (held : HeldDigester) : Nat × Bytes := (held.seed, held.digester.msg)

namespace Digesters

variable {V ε : Type} {hashes : DigestHashes} {hip : V → Except ε Bytes}

/-- The digesters refine the recomputing model holding `held`: the pool holds
digesters with nothing memoised, and each held digester answers for the seed and
message the model holds in its place. -/
structure Refines (hashes : DigestHashes) (sys : Digesters) (held : List (Nat × Bytes)) : Prop where
  pooled : ∀ bd ∈ sys.pool, bd.blake3Hash = emptyBlake3Hash
  views : sys.held.map HeldDigester.view = held
  answers : ∀ h ∈ sys.held, h.digester.Answers hashes h.seed h.digester.msg

/-- Replacing a held digester by one answering for the same seed and message keeps
the refinement. -/
theorem Refines.update {sys : Digesters} {held : List (Nat × Bytes)} {j : Nat} {h : HeldDigester}
    {bd : BasicDigester} (refines : Refines hashes sys held) (found : sys.held[j]? = some h)
    (answers : bd.Answers hashes h.seed h.digester.msg) :
    Refines hashes { sys with held := sys.held.set j { h with digester := bd } } held := by
  have sameView : HeldDigester.view { h with digester := bd } = h.view := by
    simp [HeldDigester.view, answers.msg_eq]
  refine ⟨refines.pooled, ?_, fun h' member => ?_⟩
  · rw [List.map_set, sameView, set_eq_of_getElem? (by simp [found]), refines.views]
  · rcases List.mem_or_eq_of_mem_set member with old | rfl
    · exact refines.answers h' old
    · simpa [answers.msg_eq] using answers

/-- One call answers as the recomputing model does and keeps the refinement. -/
theorem step_refines {sys : Digesters} {held : List (Nat × Bytes)} (refines : Refines hashes sys held)
    (call : DigesterCall V) :
    (step hashes hip sys call).2 = (recomputedStep hashes hip held call).2 ∧
      Refines hashes (step hashes hip sys call).1 (recomputedStep hashes hip held call).1 := by
  obtain ⟨pooled, views, answers⟩ := refines
  subst views
  cases call with
  | build bdb value choice =>
    obtain ⟨fresh, rest⟩ := getBasicDigester_unmemoised pooled choice
    by_cases unseeded : bdb.k0 = 0
    · simp only [step, recomputedStep, BasicDigesterBuilder.digest, if_pos unseeded]
      exact ⟨by trivial, pooled, rfl, answers⟩
    · cases provided : hip value with
      | error err =>
        simp only [step, recomputedStep, BasicDigesterBuilder.digest, if_neg unseeded, provided]
        exact ⟨by trivial, putDigester_unmemoised rest _, rfl, answers⟩
      | ok msg =>
        simp only [step, recomputedStep, BasicDigesterBuilder.digest, if_neg unseeded, provided]
        refine ⟨by trivial, rest, by simp [HeldDigester.view], fun h member => ?_⟩
        rcases List.mem_append.mp member with old | new
        · exact answers h old
        · rw [List.mem_singleton.mp new]
          exact ⟨rfl, rfl, .inl fresh⟩
  | digest j level =>
    cases found : sys.held[j]? with
    | none => simp [step, recomputedStep, found]; exact ⟨pooled, rfl, answers⟩
    | some h =>
      obtain ⟨digested, answers'⟩ : (h.digester.digest hashes level : Except (DigesterError ε) Nat × _).1 = _ ∧ _ :=
        BasicDigester.digest_answers (answers h (List.getElem?_mem found)) level
      simp only [step, recomputedStep, found, List.getElem?_map, Option.map_some', HeldDigester.view]
      exact ⟨by rw [digested], Refines.update ⟨pooled, rfl, answers⟩ found answers'⟩
  | digestPrefix j level =>
    cases found : sys.held[j]? with
    | none => simp [step, recomputedStep, found]; exact ⟨pooled, rfl, answers⟩
    | some h =>
      obtain ⟨digested, answers'⟩ :
          (h.digester.digestPrefix hashes level : Except (DigesterError ε) (List Nat) × _).1 = _ ∧ _ :=
        BasicDigester.digestPrefix_answers (answers h (List.getElem?_mem found)) level
      simp only [step, recomputedStep, found, List.getElem?_map, Option.map_some', HeldDigester.view]
      exact ⟨by rw [digested], Refines.update ⟨pooled, rfl, answers⟩ found answers'⟩
  | put j =>
    cases found : sys.held[j]? with
    | none =>
      have beyond := List.getElem?_eq_none_iff.mp found
      simp only [step, recomputedStep, found]
      exact ⟨by trivial, pooled, (List.eraseIdx_of_length_le (by simpa using beyond)).symm, answers⟩
    | some h =>
      simp only [step, recomputedStep, found]
      refine ⟨by trivial, putDigester_unmemoised pooled _, ?_, fun h' member => answers h' (List.mem_of_mem_eraseIdx member)⟩
      simp [List.eraseIdx_eq_take_drop_succ, List.map_take, List.map_drop]
  | collect i =>
    exact ⟨rfl, fun bd member => pooled bd (List.mem_of_mem_eraseIdx member), rfl, answers⟩

/-- Every run from refining states answers as the recomputing model does. -/
theorem run_refines {sys : Digesters} {held : List (Nat × Bytes)} (refines : Refines hashes sys held)
    (calls : List (DigesterCall V)) :
    (run hashes hip sys calls).2 = (recomputedRun hashes hip held calls).2 := by
  induction calls generalizing sys held with
  | nil => rfl
  | cons call calls ih =>
    obtain ⟨answered, refines'⟩ : (step hashes hip sys call).2 = _ ∧ _ := step_refines refines call
    simp only [run, recomputedRun, answered, ih refines']

end Digesters

/-- Whatever digesters `sync.Pool` hands out, in any order of calls on any number of
digesters from any builders, including recycled ones, each `Digest(level)` and
`DigestPrefix(level)` returns what recomputing from the digester's message and
seed returns: `circlehash.Hash64(m, k0)` at level 0, the level-th big-endian word
of `blake3.Sum256(m)` at levels 1 to 3, an error beyond, and the prefix of those. -/
theorem digesters_answer_as_recomputed {V ε : Type} (hashes : DigestHashes) (hip : V → Except ε Bytes)
    (calls : List (DigesterCall V)) :
    (Digesters.run hashes hip ⟨[], []⟩ calls).2 = (Digesters.recomputedRun hashes hip [] calls).2 :=
  Digesters.run_refines ⟨fun _ member => absurd member (List.not_mem_nil _), rfl,
    fun _ member => absurd member (List.not_mem_nil _)⟩ calls

end Atree
