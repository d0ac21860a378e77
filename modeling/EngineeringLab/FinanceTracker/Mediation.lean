/-
Complete mediation: nothing is done for a user without a permission.

The guards ask the database before the handler runs, and the roles and flags may change at any
time in between; so what can be said is that there was a moment, after the request came in and
before any call of its handler, at which the user effectively had the permission that the route
requires and the household had the route's module enabled (`mediated`). This holds of every
call of every request, whatever its body, in any interleaving, once the application's modules
have registered; only the queries of the guards themselves come before.

That the permission was there at a moment before is all that a check in advance can give.
Whether it is still there at the later calls of the request is not promised, and the race of
role updates shows what can happen in between. The guards themselves only read
(`GuardQuery`), and no call of a handler comes before the last guard has answered. What the
permission is, the route's decorator says; the modules' descriptors make sure that it
exists.
-/
import EngineeringLab.FinanceTracker.AppModule
import EngineeringLab.FinanceTracker.FeatureGate

set_option autoImplicit false

open Concurrency

namespace EngineeringLab.FinanceTracker

/-- Requests with bodies of any kind. -/
def anyHttp (rt : Runtime) (app : App) : System Db HttpRequest Call Answer ServiceError Unit :=
  { httpSystem rt app with admits := fun _ => True }

/-- The queries of the two guards. -/
inductive GuardQuery (user : RequestUser) : Call → Prop
  | flag (moduleName : String) : GuardQuery user (.findFirst .featureFlag
      [(.householdId, .int user.householdId), (.moduleName, .str moduleName)] [])
  | permissions :
      GuardQuery user (.findMany .userRoleAssignment [(.userId, .int user.id)] [["role"]])

/-- The user had the permission at some moment so far. -/
def Permitted (q : HttpRequest) (h : History Db Call Answer) : Prop :=
  ∃ p, q.endpoint.permissions = some [p] ∧ ∃ db ∈ h.moments, db.rows.effective q.user.id p

/-- The household had the module enabled at some moment so far. -/
def Enabled (q : HttpRequest) (h : History Db Call Answer) : Prop :=
  ∀ moduleName, q.endpoint.controllerModule = some moduleName →
    ∃ db ∈ h.moments, ¬ db.rows.Disabled q.user.householdId moduleName

/-- Of a request that has got this far. -/
structure Mediated (t : Thread Db HttpRequest Call Answer ServiceError Unit) : Prop where
  calls : t.past.EachCall fun h c _ _ =>
    GuardQuery t.req.user c ∨ Permitted t.req h ∧ Enabled t.req h
  served : t.prog = .ret () → t.req.endpoint = .getHello ∨
    Permitted t.req t.past ∧ Enabled t.req t.past

/-! ## The contract -/

def mediation (rt : Runtime) (app : App) : Contract (anyHttp rt app) where
  inv _ := True
  rely _ _ := True
  pre _ _ := True
  ok := anyCall
  guar q h c _ _ := GuardQuery q.user c ∨ Permitted q h ∧ Enabled q h
  post q o h := o = .ok () → q.endpoint = .getHello ∨ Permitted q h ∧ Enabled q h

section

variable {rt : Runtime} {app : App} {q : HttpRequest} {h h' : History Db Call Answer}

theorem Permitted.mono (hp : Permitted q h) (hsub : h.moments ⊆ h'.moments) : Permitted q h' := by
  obtain ⟨p, hreq, db, hdb, heff⟩ := hp
  exact ⟨p, hreq, db, hsub hdb, heff⟩

theorem Enabled.mono (he : Enabled q h) (hsub : h.moments ⊆ h'.moments) : Enabled q h' := by
  intro moduleName hmodule
  obtain ⟨db, hdb, hon⟩ := he moduleName hmodule
  exact ⟨db, hsub hdb, hon⟩

/-- Behind the guards anything may be called. -/
theorem along_allowed {α : Type} {p : Service α} (hp : Permitted q h) (he : Enabled q h) :
    (mediation rt app).Along q p h fun _ h' => Permitted q h' ∧ Enabled q h' := by
  induction p generalizing h with
  | ret a => exact ⟨hp, he⟩
  | throw x => exact ⟨hp, he⟩
  | call c k ih =>
      intro h' hx _ r e _ _
      have hp' := hp.mono hx.moments_subset
      have he' := he.mono hx.moments_subset
      refine ⟨.inr ⟨hp', he'⟩, ih r (hp'.mono ?_) (he'.mono ?_)⟩
      · exact List.subset_cons_self _ _
      · exact List.subset_cons_self _ _

/-- A request goes on behind a guard only if the guard says yes. -/
theorem guarded_rule {guard : Service Bool} {next : Service Unit}
    {post : Except ServiceError Unit → History Db Call Answer → Prop}
    (hthrow : ∀ x h', post (.error x) h')
    (hguard : (mediation rt app).Along q guard h fun o h' =>
      o = .ok true → (mediation rt app).Along q next h' post) :
    (mediation rt app).Along q (guarded guard next) h post := by
  refine Contract.Along.bind (hguard.mono fun o h' hnext => ?_)
  rcases o with x | _ | _
  · exact hthrow x h'
  · exact hthrow _ h'
  · exact hnext rfl

theorem Endpoint.module_ne_empty {e : Endpoint} {moduleName : String}
    (hmodule : e.controllerModule = some moduleName) : moduleName ≠ "" := by
  cases e with
  | crud route op =>
      cases route <;> simp only [controllerModule, Option.some.injEq, reduceCtorEq] at hmodule
      subst hmodule
      decide
  | sync accountId start stop =>
      cases hmodule
      decide
  | listAdapters =>
      cases hmodule
      decide
  | _ => cases hmodule

/-- The flag service says yes only if it has found the flag enabled. -/
theorem enabled_along {moduleName : String} :
    (mediation rt app).Along q (isModuleEnabled q.user.householdId moduleName) h fun o h' =>
      o = .ok true → ∃ db ∈ h'.moments, ¬ db.rows.Disabled q.user.householdId moduleName := by
  refine Contract.Along.bind fun h' hx _ r e hexec _ => ⟨.inl (.flag moduleName), ?_⟩
  obtain ⟨rfl, ⟨x, rfl⟩ | ⟨hit, hcond, ⟨rfl, -⟩ | ⟨flag, hflag, hhit, rfl⟩⟩⟩ := hexec.findFirst
  · rintro ⟨⟩
  · rintro ⟨⟩
  · intro htrue
    rw [condition_flag] at hcond
    split at hcond
    · rw [← Option.some.inj hcond, Bool.and_eq_true, decide_eq_true_eq, decide_eq_true_eq] at hhit
      have hon : decide (flag .isEnabled = .boolean true) = true := Except.ok.inj htrue
      refine ⟨h'.now, List.mem_cons_self, fun hoff => ?_⟩
      exact hoff flag hflag hhit.1 hhit.2 (of_decide_eq_true hon)
    · cases hcond

/-- The flag guard says yes only if there is no module, or its flag is enabled. -/
theorem flagGuard_along :
    (mediation rt app).Along q (FeatureFlagGuard.canActivate q.endpoint.handlerModule
      q.endpoint.controllerModule q.user.householdId) h
      fun o h' => o = .ok true → Enabled q h' := by
  unfold FeatureFlagGuard.canActivate
  have hor : q.endpoint.handlerModule.or q.endpoint.controllerModule =
      q.endpoint.controllerModule := rfl
  rw [hor]
  cases hmodule : q.endpoint.controllerModule with
  | none =>
      intro _ moduleName h
      rw [hmodule] at h
      cases h
  | some moduleName =>
      dsimp only
      rw [if_neg (Endpoint.module_ne_empty hmodule)]
      refine Contract.Along.bind (enabled_along.mono fun o h' hon => ?_)
      rcases o with x | _ | _
      · rintro ⟨⟩
      · rintro ⟨⟩
      · intro _ moduleName' h
        rw [hmodule] at h
        cases h
        exact hon rfl

/-- The permissions guard says yes only if the user has the permission of the route. -/
theorem permissionsGuard_along (hr : Started app.registry) :
    (mediation rt app).Along q (PermissionsGuard.canActivate app.registry q.endpoint.name
      q.endpoint.permissions q.user.id) h fun o h' =>
        o = .ok true → q.endpoint = .getHello ∨ Permitted q h' := by
  rw [hr.guard]
  rcases q.endpoint.permissions_cases with hhello | ⟨p, hp, -⟩
  · rw [hhello]
    exact fun _ => .inl rfl
  · rw [hp]
    refine Contract.Along.bind fun h' hx _ r e hexec _ => ⟨.inl .permissions, ?_⟩
    cases r with
    | error x => rintro ⟨⟩
    | ok entities =>
        intro hall
        refine .inr ⟨p, hp, h'.now, List.mem_cons_of_mem _ h'.now_mem_moments, ?_⟩
        have hmem := mem_of_effective_call hexec p
        have htrue : ([p].all fun p => (permissionSet entities).contains p) = true :=
          Except.ok.inj hall
        simpa using hmem.mp (by simpa using htrue)

/-- **One request**: first the flag, then the roles, then the handler. -/
theorem mediation_holds (hr : Started app.registry) : (mediation rt app).Holds where
  drift _ _ _ _ := ⟨trivial, trivial⟩
  call _ _ _ _ _ _ _ _ := ⟨trivial, trivial, fun _ hq => nomatch hq⟩
  arrive _ _ _ _ := trivial
  body q e _ _ := by
    refine guarded_rule (fun _ _ => by rintro ⟨⟩)
      (flagGuard_along.mono fun o h henabled htrue => ?_)
    have hon := henabled htrue
    refine guarded_rule (fun _ _ => by rintro ⟨⟩)
      ((permissionsGuard_along hr).moments.mono fun o h' hguard htrue' => ?_)
    have hon' : Enabled q h' := hon.mono hguard.2
    rcases hguard.1 htrue' with hhello | hpermitted
    · -- `hello` calls no service
      unfold HttpRequest.handle
      rw [hhello]
      by_cases hparse : q.idsParse = true
      · rw [if_pos hparse]
        exact fun _ => .inl hhello
      · rw [if_neg hparse]
        rintro ⟨⟩
    · exact (along_allowed hpermitted hon').mono fun _ _ hallowed _ => .inr hallowed

/-- **Complete mediation.** -/
theorem mediated {ds : List PermissionDescriptor} (hperm : ds.Perm appModules)
    (hregisters : PermissionRegistry.Registers ds app.registry) {db₀ : Db}
    {w : World Db HttpRequest Call Answer ServiceError Unit}
    (hw : (anyHttp rt app).Reach anyCall db₀ w) : ∀ t ∈ w.threads, Mediated t := by
  have hK : (mediation rt app).Holds := mediation_holds (started_of_registers hperm hregisters)
  intro t ht
  refine ⟨Contract.sound_calls hK trivial hw t ht, fun hprog => ?_⟩
  exact Contract.sound_post hK trivial hw ht hprog rfl

end

/-! ### The application on the seed -/

def mediatedWorld : World Db HttpRequest Call Answer ServiceError Unit :=
  (anyHttp Runtime.mayFirst ⟨appRegistry, []⟩).playAll (fun e c => Runtime.mayFirst.answer c e)
    ⟨Seed.budgetOfTwo, []⟩ gateMoves

/-- Both households have lunch, and household 1 makes a budget. -/
theorem mediated_example :
    (mediatedWorld.env.rows .transaction).length = 2 ∧
      (mediatedWorld.env.rows .budget).length = 2 ∧ ∀ t ∈ mediatedWorld.threads, Mediated t := by
  refine ⟨by decide +kernel, by decide +kernel, mediated (.refl _) (registers_of_perm (.refl _))
    (System.reach_play (fun e c => Runtime.Exec.answered e c) (fun m hm => ?_)
      (System.meets_anyCall _ _))⟩
  rcases List.mem_append.mp hm with hm | hm
  · obtain ⟨q, -, rfl⟩ := List.mem_map.mp hm
    trivial
  · obtain ⟨i, -, rfl⟩ := List.mem_map.mp hm
    trivial

end EngineeringLab.FinanceTracker
