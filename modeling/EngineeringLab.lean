import EngineeringLab.FinanceTracker.AppModule
import EngineeringLab.FinanceTracker.BankSync
import EngineeringLab.FinanceTracker.Delegation
import EngineeringLab.FinanceTracker.FeatureGate
import EngineeringLab.FinanceTracker.Granting
import EngineeringLab.FinanceTracker.Households
import EngineeringLab.FinanceTracker.Mediation
import EngineeringLab.FinanceTracker.Ownership
import EngineeringLab.FinanceTracker.Publishing
import EngineeringLab.FinanceTracker.References
import EngineeringLab.FinanceTracker.RoleAtomicity
import EngineeringLab.FinanceTracker.RoleUpdates
import EngineeringLab.FinanceTracker.Spending
import EngineeringLab.FinanceTracker.Visibility
import EngineeringLab.Reliability.ErrorRates
import EngineeringLab.Reliability.Health
import EngineeringLab.Reliability.Loadgen
import EngineeringLab.Reliability.Recordings
import EngineeringLab.Shortener.Admission
import EngineeringLab.Shortener.Attempts
import EngineeringLab.Shortener.Bindings
import EngineeringLab.Shortener.CacheExpiry
import EngineeringLab.Shortener.CacheLinks
import EngineeringLab.Shortener.ExpiryZones
import EngineeringLab.Shortener.Interchange
import EngineeringLab.Shortener.Location
import EngineeringLab.Shortener.RateLimitRaces
import EngineeringLab.Shortener.Redirect
import EngineeringLab.Shortener.Redirections
import EngineeringLab.Shortener.Routes
import EngineeringLab.Shortener.Shorten
import EngineeringLab.Shortener.Tracker
import EngineeringLab.StatusRecorders
