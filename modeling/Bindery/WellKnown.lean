import Bindery.ClassName

/-!
# Well-known classes

The classes of libraries and platforms that generated sources mention, and the markers that users
put on their own classes. Each feature keeps the names of its own runtime beside its generators.
-/

namespace Bindery.WellKnown

/-! ## Scopes -/

/-- Configures a scope: one flag for each feature, and possibly a parent. -/
def scopeConfiguration : ClassName where
  package := "dev.steinerok.sealant.core"
  simpleNames := ["SealantConfiguration"]

/-- Makes one declaration the integration point of several scopes. -/
def multiScopeIntegration : ClassName where
  package := "dev.steinerok.sealant.core"
  simpleNames := ["SealantIntegration"]

def experimentalApi : ClassName where
  package := "dev.steinerok.sealant.core"
  simpleNames := ["ExperimentalSealantApi"]

def internalApi : ClassName where
  package := "dev.steinerok.sealant.core.internal"
  simpleNames := ["InternalSealantApi"]

/-! ## Merging -/

def mergeComponent : ClassName where
  package := "com.squareup.anvil.annotations"
  simpleNames := ["MergeComponent"]

def mergeSubcomponent : ClassName where
  package := "com.squareup.anvil.annotations"
  simpleNames := ["MergeSubcomponent"]

def mergeSubcomponentFactory : ClassName where
  package := "com.squareup.anvil.annotations"
  simpleNames := ["MergeSubcomponent", "Factory"]

def contributesTo : ClassName where
  package := "com.squareup.anvil.annotations"
  simpleNames := ["ContributesTo"]

def singleIn : ClassName where
  package := "com.squareup.anvil.annotations.optional"
  simpleNames := ["SingleIn"]

/-! ## Injection -/

def moduleAnnotation : ClassName where
  package := "dagger"
  simpleNames := ["Module"]

def binds : ClassName where
  package := "dagger"
  simpleNames := ["Binds"]

def bindsInstance : ClassName where
  package := "dagger"
  simpleNames := ["BindsInstance"]

def provides : ClassName where
  package := "dagger"
  simpleNames := ["Provides"]

def membersInjector : ClassName where
  package := "dagger"
  simpleNames := ["MembersInjector"]

def classKey : ClassName where
  package := "dagger.multibindings"
  simpleNames := ["ClassKey"]

def stringKey : ClassName where
  package := "dagger.multibindings"
  simpleNames := ["StringKey"]

def intoMap : ClassName where
  package := "dagger.multibindings"
  simpleNames := ["IntoMap"]

def intoSet : ClassName where
  package := "dagger.multibindings"
  simpleNames := ["IntoSet"]

def multibinds : ClassName where
  package := "dagger.multibindings"
  simpleNames := ["Multibinds"]

def assisted : ClassName where
  package := "dagger.assisted"
  simpleNames := ["Assisted"]

def assistedInject : ClassName where
  package := "dagger.assisted"
  simpleNames := ["AssistedInject"]

def assistedFactory : ClassName where
  package := "dagger.assisted"
  simpleNames := ["AssistedFactory"]

def inject : ClassName where
  package := "javax.inject"
  simpleNames := ["Inject"]

def provider : ClassName where
  package := "javax.inject"
  simpleNames := ["Provider"]

/-! ## Languages -/

def optIn : ClassName where
  package := "kotlin"
  simpleNames := ["OptIn"]

/-- The parent of a scope that has no parent. -/
def anyClass : ClassName where
  package := "kotlin"
  simpleNames := ["Any"]

def stringClass : ClassName where
  package := "kotlin"
  simpleNames := ["String"]

def mapClass : ClassName where
  package := "kotlin.collections"
  simpleNames := ["Map"]

def setClass : ClassName where
  package := "kotlin.collections"
  simpleNames := ["Set"]

def javaClass : ClassName where
  package := "java.lang"
  simpleNames := ["Class"]

def suppressWildcards : ClassName where
  package := "kotlin.jvm"
  simpleNames := ["JvmSuppressWildcards"]

/-! ## Platform -/

def context : ClassName where
  package := "android.content"
  simpleNames := ["Context"]

def activity : ClassName where
  package := "androidx.activity"
  simpleNames := ["ComponentActivity"]

def fragment : ClassName where
  package := "androidx.fragment.app"
  simpleNames := ["Fragment"]

def viewModel : ClassName where
  package := "androidx.lifecycle"
  simpleNames := ["ViewModel"]

def savedStateHandle : ClassName where
  package := "androidx.lifecycle"
  simpleNames := ["SavedStateHandle"]

def listenableWorker : ClassName where
  package := "androidx.work"
  simpleNames := ["ListenableWorker"]

def workerParameters : ClassName where
  package := "androidx.work"
  simpleNames := ["WorkerParameters"]

/-! ## Groups -/

/-- Annotations that make a declaration a component. -/
def componentMarkers : List ClassName := [mergeComponent, mergeSubcomponent]

def all : List ClassName :=
  [scopeConfiguration, multiScopeIntegration, experimentalApi, internalApi, mergeComponent,
   mergeSubcomponent, mergeSubcomponentFactory, contributesTo, singleIn, moduleAnnotation, binds,
   bindsInstance, provides, membersInjector, classKey, stringKey, intoMap, intoSet, multibinds,
   assisted, assistedInject, assistedFactory, inject, provider, optIn, anyClass, stringClass,
   mapClass, setClass, javaClass, suppressWildcards, context, activity, fragment, viewModel,
   savedStateHandle, listenableWorker, workerParameters]

end Bindery.WellKnown
