import McAdmin.ServerEntries

/-!
# The data directory

Any number of threads call the stores at once, any access to the disk may fail, and the process
may be killed at any moment.  `linearized_run` says that one order of the calls, each between its
beginning and its end, explains every answer by the objects that the files stand for, and leads to
what the files hold in the end.  A file that is damaged is not written again, save by a seeding of
the servers that overlooks it.
-/

namespace DataFiles

open LockedFiles
open OpLevelsWorker (Json)
open NotificationConfig (Fields)

def Shown : Store → Type
  | .users => JsonUsers.Data
  | .passwords | .displayNames => String → Slot
  | .totp => String → TwoFactor
  | .apiTokens => ApiTokenStore.Tokens
  | .servers => List ServerEntry
  | .watched => JsonWatched.Data

abbrev Directory := ∀ store : Store, Kept (Shown store)

variable (cfg : Config)

def view : (store : Store) → View (Shown store)
  | .users => JsonUsers.view cfg
  | .passwords | .displayNames => byName Slot.of
  | .totp => byName TwoFactor.of
  | .apiTokens => ApiTokenStore.view cfg
  | .servers => JsonServers.view cfg
  | .watched => JsonWatched.view cfg

def spec : (c : Call) → Spec (Shown c.store)
  | .users c => JsonUsers.spec c
  | .passwords c => JsonCredentials.spec c
  | .totp c => JsonTotp.spec c
  | .apiTokens c => ApiTokenStore.spec cfg c
  | .displayNames c => JsonDisplayNames.spec c
  | .servers c => JsonServers.spec cfg c
  | .watched c => JsonWatched.spec c

def directory (files : Store → Content Json) : Directory :=
  fun store => (view cfg store).kept (cfg.path store) (files store)

def object : Object Call Directory Error Answer where
  answer c sight d :=
    (spec cfg c).answer ((view cfg c.store).seen (cfg.path c.store) sight (d c.store))
  after c sight d :=
    Function.update d c.store ((d c.store).changed
      ((spec cfg c).change ((view cfg c.store).seen (cfg.path c.store) sight (d c.store))))

theorem simulates (c : Call) : Simulates (view cfg c.store) (c.work cfg) (spec cfg c) := by
  cases c with
  | users c => exact JsonUsers.simulates cfg c
  | passwords c => exact JsonCredentials.simulates c
  | totp c => exact JsonTotp.simulates c
  | apiTokens c => exact ApiTokenStore.simulates cfg c
  | displayNames c => exact JsonDisplayNames.simulates c
  | servers c => exact JsonServers.simulates cfg c
  | watched c => exact JsonWatched.simulates cfg c

def written (files : Store → Content Json) (p : Point Call) : Option Json :=
  ((p.call.work cfg).run (cfg.path p.call.store) p.sight (files p.call.store)).2

theorem effect_eq (files : Store → Content Json) (p : Point Call) :
    effect (method cfg) files p =
      Function.update files p.call.store
        (rewritten (files p.call.store) (written cfg files p)) := by
  cases h : written cfg files p with
  | none => rw [effect_of_none h, rewritten, Function.update_eq_self]
  | some value => exact effect_of_some h

theorem refines : Refines (method cfg) (directory cfg) (object cfg) where
  answer c sight files := (simulates cfg c).answer sight (files c.store)
  after i c sight files := by
    funext store
    rw [effect_eq]
    change (view cfg store).kept (cfg.path store) (Function.update files c.store _ store) =
      Function.update (directory cfg files) c.store _ store
    by_cases h : store = c.store
    · subst h
      rw [Function.update_self, Function.update_self]
      exact (simulates cfg c).after sight (files c.store)
    · rw [Function.update_of_ne h, Function.update_of_ne h]
      rfl

end DataFiles
